import ChaosLab.TransportRelay
import ChaosLab.Foundation.Words

/-! What the statistics of one direction say: they balance against the frames
read, and where they count a corrupted or a truncated frame there may be none. -/

set_option autoImplicit false

namespace ChaosLab

open Foundation

section Tallies

/-- The numbers that the counters of the statistics stand for. -/
structure Tally where
  forwarded : Nat := 0
  applied : Nat := 0
  dropped : Nat := 0
  truncated : Nat := 0
  corrupted : Nat := 0
  duplicated : Nat := 0
  delayed : Nat := 0
  reordered : Nat := 0

def Tally.stats (tally : Tally) : TransportStats where
  framesForwarded := UInt64.ofNat tally.forwarded
  faultsApplied := UInt64.ofNat tally.applied
  dropped := UInt64.ofNat tally.dropped
  truncated := UInt64.ofNat tally.truncated
  corrupted := UInt64.ofNat tally.corrupted
  duplicated := UInt64.ofNat tally.duplicated
  delayed := UInt64.ofNat tally.delayed
  reordered := UInt64.ofNat tally.reordered

/-- The number of frames held back. -/
def Forwarder.held (state : Forwarder) : Nat := if state.pending = [] then 0 else 1

/-- After `read` frames; `ended` counts the one that closed the connection. -/
structure Forwarder.Accounts (state : Forwarder) (tally : Tally) (read ended : Nat) : Prop where
  seq : state.seq = UInt64.ofNat read
  stats : state.stats = tally.stats
  forwarded : tally.forwarded = state.written.length
  frames : read + tally.duplicated = tally.forwarded + tally.dropped + state.held + ended
  applied : tally.applied = tally.dropped + tally.duplicated + tally.truncated +
    tally.corrupted + tally.reordered + tally.delayed + ended
  bounded : tally.applied ≤ read

variable {state : Forwarder} {tally : Tally} {read : Nat} {bytes : Bytes}

theorem Forwarder.Accounts.start : ({} : Forwarder).Accounts {} 0 0 where
  seq := rfl
  stats := rfl
  forwarded := rfl
  frames := rfl
  applied := rfl
  bounded := le_rfl

/-- A frame that no fault is for. -/
def Tally.pass (tally : Tally) : Tally := { tally with forwarded := tally.forwarded + 1 }

/-- A frame that a fault of this kind is applied to. -/
def Tally.fault (tally : Tally) (held : Nat) : TransportFaultKind → Tally
  | .drop => { tally with applied := tally.applied + 1, dropped := tally.dropped + 1 }
  | .duplicate =>
      { tally with
        applied := tally.applied + 1
        duplicated := tally.duplicated + 1
        forwarded := tally.forwarded + 2 }
  | .truncate =>
      { tally with
        applied := tally.applied + 1
        truncated := tally.truncated + 1
        forwarded := tally.forwarded + 1 }
  | .corrupt =>
      { tally with
        applied := tally.applied + 1
        corrupted := tally.corrupted + 1
        forwarded := tally.forwarded + 1 }
  | .reorder =>
      { tally with
        applied := tally.applied + 1
        reordered := tally.reordered + 1
        forwarded := tally.forwarded + held }
  | .delay =>
      { tally with
        applied := tally.applied + 1
        delayed := tally.delayed + 1
        forwarded := tally.forwarded + 1 }
  | .halfClose | .close => { tally with applied := tally.applied + 1 }

/-- Whether the connection is given up. -/
def ends : TransportFaultKind → Nat
  | .halfClose | .close => 1
  | _ => 0

theorem Forwarder.Accounts.forward (accounts : state.Accounts tally read 0) (bytes : Bytes) :
    ({ state with seq := state.seq + 1 }.forward bytes 1).Accounts tally.pass (read + 1) 0 where
  seq := by rw [ofNat_add_one, ← accounts.seq]; rfl
  stats := by
    simp only [Forwarder.forward, Tally.pass, Tally.stats, ofNat_add_one, accounts.stats]
    rfl
  forwarded := by simp [Forwarder.forward, Tally.pass, accounts.forwarded]
  frames := by
    have frames := accounts.frames
    change read + 1 + tally.duplicated = tally.forwarded + 1 + tally.dropped + state.held + 0
    omega
  applied := accounts.applied
  bounded := accounts.bounded.trans (Nat.le_succ read)

theorem stats_applyFault (counted : state.stats = tally.stats) (fault : TransportFault)
    (bytes : Bytes) :
    (state.applyFault fault bytes).1.stats = (tally.fault state.held fault.kind).stats := by
  unfold Forwarder.applyFault
  cases fault.kind with
  | reorder =>
      by_cases holds : state.pending = []
      · simp [holds, Forwarder.held, counted, Tally.fault, Tally.stats, ofNat_add_one]
      · simp [holds, Forwarder.held, Forwarder.forward, counted, Tally.fault, Tally.stats,
          ofNat_add_one]
  | duplicate =>
      simp only [Forwarder.forward, counted, Tally.fault, Tally.stats, UInt64.ofNat_add]
      rfl
  | drop | truncate | corrupt | delay | halfClose | close =>
      simp [Forwarder.forward, counted, Tally.fault, Tally.stats, ofNat_add_one]

theorem length_written_applyFault (state : Forwarder) (tally : Tally) (fault : TransportFault)
    (bytes : Bytes) :
    (state.applyFault fault bytes).1.written.length + tally.forwarded =
      state.written.length + (tally.fault state.held fault.kind).forwarded := by
  unfold Forwarder.applyFault
  cases fault.kind with
  | reorder =>
      by_cases holds : state.pending = []
      · simp [holds, Forwarder.held, Tally.fault]
      · simp [holds, Forwarder.held, Forwarder.forward, Tally.fault]
        omega
  | drop | duplicate | truncate | corrupt | delay | halfClose | close =>
      simp [Forwarder.forward, Tally.fault]
      try omega

theorem held_applyFault (state : Forwarder) (fault : TransportFault) (nonempty : bytes ≠ []) :
    (state.applyFault fault bytes).1.held = if fault.kind = .reorder then 1 else state.held := by
  unfold Forwarder.applyFault
  cases fault.kind with
  | reorder =>
      by_cases holds : state.pending = []
      · simp [holds, Forwarder.held, nonempty]
      · simp [holds, Forwarder.held, Forwarder.forward, nonempty]
  | drop | duplicate | truncate | corrupt | delay | halfClose | close => rfl

theorem seq_applyFault (fault : TransportFault) (bytes : Bytes) :
    (state.applyFault fault bytes).1.seq = state.seq := by
  unfold Forwarder.applyFault
  cases fault.kind with
  | reorder => by_cases holds : state.pending = [] <;> simp [holds, Forwarder.forward]
  | drop | duplicate | truncate | corrupt | delay | halfClose | close => rfl

theorem ends_applyFault (fault : TransportFault) (bytes : Bytes) :
    ends fault.kind = if (state.applyFault fault bytes).2 then 0 else 1 := by
  unfold Forwarder.applyFault
  cases fault.kind with
  | reorder => by_cases holds : state.pending = [] <;> simp [holds, ends]
  | drop | duplicate | truncate | corrupt | delay | halfClose | close => rfl

theorem deliver_of_none {dir : Direction} {faults : List TransportFault} {mtype : UInt32}
    (unselected : selectFault dir mtype (state.seq + 1) faults = none) (bytes : Bytes) :
    state.deliver dir faults mtype bytes =
      ({ state with seq := state.seq + 1 }.forward bytes 1, true) := by
  simp only [Forwarder.deliver, unselected]

theorem deliver_of_some {dir : Direction} {faults : List TransportFault} {mtype : UInt32}
    {fault : TransportFault}
    (selected : selectFault dir mtype (state.seq + 1) faults = some fault) (bytes : Bytes) :
    state.deliver dir faults mtype bytes =
      { state with seq := state.seq + 1 }.applyFault fault bytes := by
  simp only [Forwarder.deliver, selected]

/-- The step lemma of the balance: one turn of the loop counts its frame once. -/
theorem Forwarder.Accounts.deliver (accounts : state.Accounts tally read 0) (dir : Direction)
    (faults : List TransportFault) (mtype : UInt32) (nonempty : bytes ≠ []) :
    ∃ after, (state.deliver dir faults mtype bytes).1.Accounts after (read + 1)
      (if (state.deliver dir faults mtype bytes).2 then 0 else 1) := by
  cases selected : selectFault dir mtype (state.seq + 1) faults with
  | none =>
      rw [deliver_of_none selected]
      exact ⟨tally.pass, accounts.forward bytes⟩
  | some fault =>
      let counted : Forwarder := { state with seq := state.seq + 1 }
      refine ⟨tally.fault counted.held fault.kind, ?_⟩
      rw [deliver_of_some selected, ← ends_applyFault]
      change (counted.applyFault fault bytes).1.Accounts _ _ _
      have written := length_written_applyFault counted tally fault bytes
      have held := held_applyFault counted fault nonempty
      have frames := accounts.frames
      have applied := accounts.applied
      have bounded := accounts.bounded
      have forwarded := accounts.forwarded
      constructor
      · rw [seq_applyFault, ofNat_add_one, ← accounts.seq]
      · have counts : counted.stats = tally.stats := accounts.stats
        exact stats_applyFault counts fault bytes
      · change _ + _ = state.written.length + _ at written
        omega
      · rw [held]
        change read + tally.duplicated = tally.forwarded + tally.dropped + counted.held + 0 at frames
        cases fault.kind with
        | drop | duplicate | truncate | corrupt | reorder | delay | halfClose | close =>
            simp [Tally.fault, ends]
            omega
      · cases fault.kind with
        | drop | duplicate | truncate | corrupt | reorder | delay | halfClose | close =>
            simp only [Tally.fault, ends]
            omega
      · cases fault.kind with
        | drop | duplicate | truncate | corrupt | reorder | delay | halfClose | close =>
            exact Nat.succ_le_succ bounded

end Tallies

section Turns

variable {dir : Direction} {faults : List TransportFault} {aborted : Nat → Bool} {socket : Socket}

/-- `forward_frames` is about to read a frame, after `read` of them, from what is
left of the socket. -/
inductive AboutToRead (dir : Direction) (faults : List TransportFault) (aborted : Nat → Bool)
    (socket : Socket) : Nat → Socket → Forwarder → Prop where
  | start : AboutToRead dir faults aborted socket 0 socket {}
  | next {read rest state mtype bytes later after} :
      AboutToRead dir faults aborted socket read rest state →
      aborted read = false → readFrame rest = .frame mtype bytes later →
      state.deliver dir faults mtype bytes = (after, true) →
      AboutToRead dir faults aborted socket (read + 1) later after

/-- `forward_frames` returns on a fault that closes, which is for frame number `read`. -/
inductive Closes (dir : Direction) (faults : List TransportFault) (aborted : Nat → Bool)
    (socket : Socket) : Nat → Forwarder → Prop where
  | intro {read rest state mtype bytes later after} :
      AboutToRead dir faults aborted socket read rest state →
      aborted read = false → readFrame rest = .frame mtype bytes later →
      state.deliver dir faults mtype bytes = (after, false) →
      Closes dir faults aborted socket (read + 1) after

theorem AboutToRead.forwardFrames_eq {read : Nat} {rest : Socket} {state : Forwarder}
    (about : AboutToRead dir faults aborted socket read rest state) :
    forwardFrames dir faults aborted 0 socket {} =
      forwardFrames dir faults aborted read rest state := by
  induction about with
  | start => rfl
  | next _ lowered reads delivered ih =>
      rw [ih, forwardFrames_of_frame lowered reads, delivered]

/-- The loop goes on reading until it returns, and then says why. -/
theorem AboutToRead.closes_of_forwardFrames {read : Nat} {rest : Socket} {state final : Forwarder}
    (about : AboutToRead dir faults aborted socket read rest state)
    (closed : forwardFrames dir faults aborted read rest state = (final, some false)) :
    ∃ last, Closes dir faults aborted socket last final := by
  induction size : (incoming rest).length using Nat.strong_induction_on
    generalizing read rest state with
  | _ size ih =>
      cases lowered : aborted read with
      | true =>
          rw [forwardFrames_of_aborted lowered] at closed
          cases closed
      | false =>
          cases reads : readFrame rest with
          | waiting | aborts =>
              rw [forwardFrames_of_stopped lowered (by simp [reads]), reads] at closed
              cases closed
          | frame mtype bytes later =>
              have shorter := length_incoming_of_readFrame reads
              rw [forwardFrames_of_frame lowered reads] at closed
              cases delivered : state.deliver dir faults mtype bytes with
              | mk after goes =>
                  cases goes with
                  | false =>
                      simp only [delivered, Prod.mk.injEq, and_true] at closed
                      subst closed
                      exact ⟨_, .intro about lowered reads delivered⟩
                  | true =>
                      simp only [delivered] at closed
                      exact ih _ (size ▸ shorter) (about.next lowered reads delivered) closed rfl

theorem forwardFrames_eq_false_iff {final : Forwarder} :
    forwardFrames dir faults aborted 0 socket {} = (final, some false) ↔
      ∃ read, Closes dir faults aborted socket read final := by
  constructor
  · exact AboutToRead.start.closes_of_forwardFrames
  · rintro ⟨read, @⟨_, _, _, _, _, _, _, about, lowered, reads, delivered⟩⟩
    rw [about.forwardFrames_eq, forwardFrames_of_frame lowered reads, delivered]

theorem ne_nil_of_readFrame {mtype : UInt32} {bytes : Bytes} {later : Socket}
    (reads : readFrame socket = .frame mtype bytes later) : bytes ≠ [] := by
  unfold readFrame at reads
  cases headed : readExact Frame.header socket with
  | mk outcome middle =>
      cases outcome with
      | waiting | failed | ended => simp [headed] at reads
      | complete header =>
          simp only [headed] at reads
          cases decoded : Frame.decodeHeader header with
          | none => simp [decoded] at reads
          | some fields =>
              have nonempty : header ≠ [] := by
                rintro rfl
                simp [Frame.decodeHeader, Frame.header] at decoded
              obtain ⟨type, len⟩ := fields
              simp only [decoded] at reads
              split at reads
              · cases reads
              · cases reads
              · cases reads
              · cases reads
                simp [nonempty]

/-- The run lemma of the balance. -/
theorem AboutToRead.accounts {read : Nat} {rest : Socket} {state : Forwarder}
    (about : AboutToRead dir faults aborted socket read rest state) :
    ∃ tally, state.Accounts tally read 0 := by
  induction about with
  | start => exact ⟨{}, .start⟩
  | @next _ _ _ mtype _ _ _ _ _ reads delivered ih =>
      obtain ⟨tally, accounts⟩ := ih
      simpa [delivered] using accounts.deliver dir faults mtype (ne_nil_of_readFrame reads)

theorem Closes.accounts {read : Nat} {final : Forwarder}
    (closes : Closes dir faults aborted socket read final) :
    ∃ tally, final.Accounts tally read 1 := by
  obtain @⟨_, _, _, mtype, _, _, _, about, _, reads, delivered⟩ := closes
  obtain ⟨tally, accounts⟩ := about.accounts
  simpa [delivered] using accounts.deliver dir faults mtype (ne_nil_of_readFrame reads)

end Turns

section Balance

/-- The statistics account for the frames read and for the faults applied, but
for `ended` of them. -/
structure Balanced (read ended : Nat) (state : Forwarder) : Prop where
  frames : (read : Int) = (state.stats.framesForwarded.toNat : Int) -
    state.stats.duplicated.toNat + state.stats.dropped.toNat +
    (if state.pending = [] then 0 else 1) + ended
  applied : state.stats.faultsApplied.toNat = state.stats.dropped.toNat +
    state.stats.duplicated.toNat + state.stats.truncated.toNat + state.stats.corrupted.toNat +
    state.stats.reordered.toNat + state.stats.delayed.toNat + ended

theorem toNat_ofNat_of_le {count limit : Nat} (small : limit < 2 ^ 64) (below : count ≤ limit) :
    (UInt64.ofNat count).toNat = count := by
  rw [UInt64.toNat_ofNat']
  exact Nat.mod_eq_of_lt (by omega)

/-- A counter of applied faults has not wrapped around. -/
theorem Forwarder.Accounts.toNat_counter {state : Forwarder} {tally : Tally} {read ended : Nat}
    (accounts : state.Accounts tally read ended) (reads : read < 2 ^ 64)
    (counter : TransportStats → UInt64) (number : Nat)
    (stands : counter tally.stats = UInt64.ofNat number) (part : number ≤ tally.applied) :
    (counter state.stats).toNat = number := by
  rw [accounts.stats, stands]
  exact toNat_ofNat_of_le reads (part.trans accounts.bounded)

theorem Forwarder.Accounts.balanced {state : Forwarder} {tally : Tally} {read ended : Nat}
    (accounts : state.Accounts tally read ended) (reads : read < 2 ^ 64)
    (writes : state.written.length < 2 ^ 64) : Balanced read ended state := by
  have frames := accounts.frames
  have applied := accounts.applied
  have sent : state.stats.framesForwarded.toNat = tally.forwarded := by
    rw [accounts.stats]
    exact toNat_ofNat_of_le writes accounts.forwarded.le
  have total := accounts.toNat_counter reads TransportStats.faultsApplied _ rfl le_rfl
  have dropped := accounts.toNat_counter reads TransportStats.dropped tally.dropped
    rfl (by omega)
  have duplicated := accounts.toNat_counter reads TransportStats.duplicated tally.duplicated
    rfl (by omega)
  have truncated := accounts.toNat_counter reads TransportStats.truncated tally.truncated
    rfl (by omega)
  have corrupted := accounts.toNat_counter reads TransportStats.corrupted tally.corrupted
    rfl (by omega)
  have reordered := accounts.toNat_counter reads TransportStats.reordered tally.reordered
    rfl (by omega)
  have delayed := accounts.toNat_counter reads TransportStats.delayed tally.delayed
    rfl (by omega)
  constructor
  · rw [sent, duplicated, dropped]
    unfold Forwarder.held at frames
    split at frames <;> rename_i pending <;> simp only [pending, ↓reduceIte] <;> omega
  · rw [total, dropped, duplicated, truncated, corrupted, reordered, delayed, applied]

end Balance

section Reality

/-- The texts differ in exactly one byte. -/
def DifferInOne (received sent : Bytes) : Prop :=
  sent.length = received.length ∧ ∃ position, position < received.length ∧
    received[position]? ≠ sent[position]? ∧
    ∀ other, other ≠ position → received[other]? = sent[other]?

/-- What a turn of the loop counts as corrupted or truncated, it has sent so. -/
structure CountsReal (frame : Frame) (before after : Forwarder) : Prop where
  corrupted : after.stats.corrupted = before.stats.corrupted + 1 →
    ∃ sent, after.written = before.written ++ [sent] ∧ DifferInOne frame.encode sent
  truncated : after.stats.truncated = before.stats.truncated + 1 →
    ∃ payload, after.written = before.written ++ [{ frame with payload }.encode] ∧
      payload.length < frame.payload.length

/-- The offset of a fault that corrupts or truncates is inside a frame of this
size, for corruption behind its header. The size has to be a number of an `int` there. -/
def Lands (size : Nat) (fault : TransportFault) : Prop :=
  (fault.kind = .corrupt → 12 ≤ fault.offset.toInt ∧ fault.offset.toInt < size ∧ size < 2 ^ 31) ∧
    (fault.kind = .truncate → 0 ≤ fault.offset.toInt ∧ fault.offset.toInt < size)

theorem xor_ne_self (byte : UInt8) : byte ^^^ 0xa5 ≠ byte := by
  revert byte
  decide +kernel

theorem differInOne_modify {bytes : Bytes} {position : Nat} (inside : position < bytes.length) :
    DifferInOne bytes (bytes.modify position (· ^^^ 0xa5)) := by
  refine ⟨List.length_modify _ _ _, position, inside, ?_, fun other apart => ?_⟩
  · rw [List.getElem?_modify_eq, List.getElem?_eq_getElem inside]
    simpa using (xor_ne_self _).symm
  · simp [apart.symm]

theorem not_differInOne_self (bytes : Bytes) : ¬ DifferInOne bytes bytes := by
  rintro ⟨_, position, _, differs, _⟩
  exact differs rfl

theorem offset_lt_iff {offset : Int32} {size : Nat} (small : size < 2 ^ 32 + 12) :
    (Int32.ofNat Frame.header ≤ offset ∧ offset < Int32.ofNat size) ↔
      12 ≤ offset.toInt ∧ offset.toInt < size ∧ size < 2 ^ 31 := by
  have header : (Int32.ofNat Frame.header).toInt = 12 := rfl
  have modulus : Int32.size = 2 ^ 32 := rfl
  rw [Int32.le_iff_toInt_le, Int32.lt_iff_toInt_lt, header, Int32.toInt_ofNat', modulus,
    Int.bmod_def]
  split <;> omega

theorem length_truncatePayload_lt_iff {offset : Int32} {payload : Bytes} (nonempty : payload ≠ [])
    (small : payload.length < 2 ^ 32) :
    (truncatePayload offset payload).length < payload.length ↔
      0 ≤ offset.toInt ∧ offset.toInt < Frame.header + payload.length := by
  have positive := List.length_pos_of_ne_nil nonempty
  have lower := offset.le_toInt
  have upper := offset.toInt_lt
  rw [truncatePayload, List.length_take, Frame.header]
  omega

theorem corrupted_applyFault (state : Forwarder) (fault : TransportFault) (bytes : Bytes) :
    (state.applyFault fault bytes).1.stats.corrupted =
      if fault.kind = .corrupt then state.stats.corrupted + 1 else state.stats.corrupted := by
  unfold Forwarder.applyFault
  cases fault.kind with
  | reorder => by_cases holds : state.pending = [] <;> simp [holds, Forwarder.forward]
  | drop | duplicate | truncate | corrupt | delay | halfClose | close => rfl

theorem truncated_applyFault (state : Forwarder) (fault : TransportFault) (bytes : Bytes) :
    (state.applyFault fault bytes).1.stats.truncated =
      if fault.kind = .truncate then state.stats.truncated + 1 else state.stats.truncated := by
  unfold Forwarder.applyFault
  cases fault.kind with
  | reorder => by_cases holds : state.pending = [] <;> simp [holds, Forwarder.forward]
  | drop | duplicate | truncate | corrupt | delay | halfClose | close => rfl

theorem differInOne_corruptFrame_iff {frame : Frame} (small : frame.payload.length < 2 ^ 32)
    (offset : Int32) :
    DifferInOne frame.encode (corruptFrame offset frame.encode) ↔
      12 ≤ offset.toInt ∧ offset.toInt < (Frame.header + frame.payload.length : Nat) ∧
        Frame.header + frame.payload.length < 2 ^ 31 := by
  have size := Frame.length_encode frame
  rw [← offset_lt_iff (by unfold Frame.header; omega), corruptFrame, size]
  by_cases inside : Int32.ofNat Frame.header ≤ offset ∧
      offset < Int32.ofNat (Frame.header + frame.payload.length)
  · have within := (offset_lt_iff (by unfold Frame.header; omega)).mp inside
    rw [if_pos inside]
    exact ⟨fun _ => inside, fun _ => differInOne_modify (by omega)⟩
  · rw [if_neg inside]
    exact ⟨fun differ => absurd differ (not_differInOne_self _), fun landed => absurd landed inside⟩

theorem ne_add_one (count : UInt64) : count ≠ count + 1 := by
  intro same
  have numbers := congrArg UInt64.toNat same
  rw [UInt64.toNat_add, show (1 : UInt64).toNat = 1 from rfl] at numbers
  have bound := count.toNat_lt
  omega

theorem applyFault_countsReal_iff (state : Forwarder) (fault : TransportFault) {frame : Frame}
    (nonempty : frame.payload ≠ []) (small : frame.payload.length < 2 ^ 32) :
    CountsReal frame state (state.applyFault fault frame.encode).1 ↔
      Lands (Frame.header + frame.payload.length) fault := by
  have corrupts := corrupted_applyFault state fault frame.encode
  have truncates := truncated_applyFault state fault frame.encode
  cases kind : fault.kind with
  | corrupt =>
      have written : (state.applyFault fault frame.encode).1.written =
          state.written ++ [corruptFrame fault.offset frame.encode] := by
        simp [Forwarder.applyFault, kind, Forwarder.forward]
      simp only [kind, ↓reduceIte, reduceCtorEq] at corrupts truncates
      constructor
      · intro real
        obtain ⟨sent, appended, differs⟩ := real.corrupted corrupts
        rw [written, List.append_cancel_left_eq, List.singleton_inj] at appended
        refine ⟨fun _ => ?_, by simp [kind]⟩
        exact (differInOne_corruptFrame_iff small _).mp (appended ▸ differs)
      · rintro ⟨lands, _⟩
        refine ⟨fun _ => ⟨_, written, ?_⟩, fun counted => ?_⟩
        · exact (differInOne_corruptFrame_iff small _).mpr (lands kind)
        · exact absurd (truncates.symm.trans counted) (ne_add_one _)
  | truncate =>
      have written : (state.applyFault fault frame.encode).1.written = state.written ++
          [{ frame with payload := truncatePayload fault.offset frame.payload }.encode] := by
        simp [Forwarder.applyFault, kind, Forwarder.forward, truncateFrame_encode]
      simp only [kind, ↓reduceIte, reduceCtorEq] at corrupts truncates
      constructor
      · intro real
        obtain ⟨payload, appended, shorter⟩ := real.truncated truncates
        rw [written, List.append_cancel_left_eq, List.singleton_inj] at appended
        have length := congrArg List.length appended
        simp only [Frame.length_encode] at length
        refine ⟨by simp [kind], fun _ => ?_⟩
        exact (length_truncatePayload_lt_iff nonempty small).mp (by omega)
      · rintro ⟨_, lands⟩
        refine ⟨fun counted => ?_, fun _ => ⟨_, written, ?_⟩⟩
        · exact absurd (corrupts.symm.trans counted) (ne_add_one _)
        · exact (length_truncatePayload_lt_iff nonempty small).mpr (lands kind)
  | drop | duplicate | reorder | delay | halfClose | close =>
      simp only [kind, reduceCtorEq, ↓reduceIte] at corrupts truncates
      constructor
      · intro _
        constructor <;> simp [kind]
      · intro _
        constructor
        · intro counted
          exact absurd (corrupts.symm.trans counted) (ne_add_one _)
        · intro counted
          exact absurd (truncates.symm.trans counted) (ne_add_one _)

/-- One turn of the loop counts truthfully exactly if the fault it applies, when
it corrupts or truncates, has its offset inside the frame. -/
theorem deliver_countsReal_iff (dir : Direction) (faults : List TransportFault)
    (state : Forwarder) (frame : Frame) (nonempty : frame.payload ≠ [])
    (small : frame.payload.length < 2 ^ 32) :
    CountsReal frame state (state.deliver dir faults frame.type frame.encode).1 ↔
      ∀ fault, selectFault dir frame.type (state.seq + 1) faults = some fault →
        Lands (Frame.header + frame.payload.length) fault := by
  cases selected : selectFault dir frame.type (state.seq + 1) faults with
  | none =>
      rw [deliver_of_none selected]
      constructor
      · intro _ fault found
        cases found
      · intro _
        exact {
          corrupted := fun counted => absurd counted (ne_add_one _)
          truncated := fun counted => absurd counted (ne_add_one _) }
  | some fault =>
      rw [deliver_of_some selected]
      have turn := applyFault_countsReal_iff { state with seq := state.seq + 1 } fault nonempty small
      constructor
      · intro real found same
        obtain rfl := Option.some.inj same
        exact turn.mp ⟨real.corrupted, real.truncated⟩
      · intro lands
        have real := turn.mpr (lands fault rfl)
        exact ⟨real.corrupted, real.truncated⟩

theorem deliver_countsReal_iff_inside :
    CountsReal ⟨256, ascii "frame"⟩ {} (Forwarder.deliver .c2s
      [{ kind := .corrupt, atSequence := 1, offset := 14 }] {} 256
      (Frame.encode ⟨256, ascii "frame"⟩)).1 :=
  (deliver_countsReal_iff .c2s [{ kind := .corrupt, atSequence := 1, offset := 14 }] {}
    ⟨256, ascii "frame"⟩ (by decide) (by decide)).mpr (by
      intro fault selected
      obtain rfl := Option.some.inj selected
      unfold Lands
      decide)

/-- The faults of the transport coverage campaign: corruption at offset 4 is counted, and
the frame is sent as it came. Truncation at the size of the frame is counted too. -/
theorem counted_without_effect :
    ¬ CountsReal ⟨256, ascii "frame"⟩ {} (Forwarder.deliver .c2s
      [{ kind := .corrupt, atSequence := 1, offset := 4 }] {} 256
      (Frame.encode ⟨256, ascii "frame"⟩)).1 ∧
    ¬ CountsReal ⟨256, ascii "frame"⟩ {} (Forwarder.deliver .c2s
      [{ kind := .truncate, atSequence := 1, offset := 17 }] {} 256
      (Frame.encode ⟨256, ascii "frame"⟩)).1 := by
  constructor
  · intro real
    obtain ⟨sent, written, differs⟩ := real.corrupted (by decide)
    obtain rfl : Frame.encode ⟨256, ascii "frame"⟩ = sent := by
      exact List.singleton_inj.mp written
    exact not_differInOne_self _ differs
  · intro real
    obtain ⟨payload, written, shorter⟩ := real.truncated (by decide)
    have length := congrArg List.length (List.singleton_inj.mp written)
    rw [Frame.length_encode] at length
    change 17 = 12 + payload.length at length
    change payload.length < 5 at shorter
    omega

end Reality

end ChaosLab
