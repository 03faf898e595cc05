import ChaosLab.TransportAccounting
import ChaosLab.TargetWorker

/-! The campaign that means to lose a completion between worker and coordinator,
and what the interposer does with the stream that a worker sends. -/

set_option autoImplicit false

namespace ChaosLab

open Foundation

section Stream

def sentFrame : Effect → Option Frame
  | .send _ type payload => some ⟨type.code, payload⟩
  | .report .. | .close .. => none

/-- What the receive loop of the worker sends for the frames it receives, each
with what the CUDA round trip would return. -/
def workerReplies (settings : TargetWorker.Settings) (fd : Int) :
    List (Bool × UInt32 × Bytes) → List Frame
  | [] => []
  | (roundtrip, type, payload) :: received =>
      match TargetWorker.switchFrame settings roundtrip type payload fd with
      | none => []
      | some effects => effects.filterMap sentFrame ++ workerReplies settings fd received

/-- The frames of a worker on one connection. -/
def workerStream (settings : TargetWorker.Settings) (fd : Int)
    (received : List (Bool × UInt32 × Bytes)) : List Frame :=
  ⟨MsgType.register.code, TargetWorker.registerPayload settings⟩ ::
    workerReplies settings fd received

end Stream

section Reading

variable {dir : Direction} {faults : List TransportFault} {aborted : Nat → Bool} {socket : Socket}

/-- The frames that a socket brings. -/
def arriving (socket : Socket) : List Frame := (Frame.decodeAll (incoming socket)).1

theorem readFrame_eq_frame {mtype : UInt32} {bytes : Bytes} {later : Socket}
    (reads : readFrame socket = .frame mtype bytes later) :
    ∃ frame : Frame, mtype = frame.type ∧ bytes = frame.encode ∧
      arriving socket = frame :: arriving later := by
  rcases Frame.decodeAll_cases (incoming socket) with
    ⟨left, consumed, refused, _⟩ | ⟨frame, tail, arrives, small, decoded⟩
  · rw [readFrame_of_refused refused] at reads
    exact absurd reads (unread_ne_frame _ _ _ _ _)
  · obtain ⟨rest, read, remaining, _⟩ := readFrame_of_frame small arrives
    rw [read, FrameRead.frame.injEq] at reads
    obtain ⟨rfl, rfl, rfl⟩ := reads
    exact ⟨frame, rfl, rfl, by rw [arriving, decoded, arriving, remaining]⟩

theorem exists_readFrame {frame : Frame} {frames : List Frame}
    (brings : arriving socket = frame :: frames) :
    ∃ later, readFrame socket = .frame frame.type frame.encode later ∧ arriving later = frames := by
  rcases Frame.decodeAll_cases (incoming socket) with
    ⟨left, consumed, _, decoded⟩ | ⟨first, tail, arrives, small, decoded⟩
  · rw [arriving, decoded] at brings
    cases brings
  · rw [arriving, decoded, List.cons.injEq] at brings
    obtain ⟨rfl, rfl⟩ := brings
    obtain ⟨later, read, remaining, _⟩ := readFrame_of_frame small arrives
    exact ⟨later, read, by rw [arriving, remaining]⟩

/-- The loop reads the frames that the socket brings, one after another. -/
theorem AboutToRead.arriving_eq {read : Nat} {rest : Socket} {state : Forwarder}
    (about : AboutToRead dir faults aborted socket read rest state) :
    arriving rest = (arriving socket).drop read := by
  induction about with
  | start => rfl
  | next _ _ reads _ ih =>
      obtain ⟨frame, _, _, brings⟩ := readFrame_eq_frame reads
      rw [ih] at brings
      rw [← List.drop_drop, brings, List.drop_one, List.tail_cons]

theorem AboutToRead.seq_eq {read : Nat} {rest : Socket} {state : Forwarder}
    (about : AboutToRead dir faults aborted socket read rest state) :
    state.seq = UInt64.ofNat read := by
  obtain ⟨_, accounts⟩ := about.accounts
  exact accounts.seq

end Reading

section Campaign

/-- The fault list of `cmd_cuda_transport`. -/
def cudaTransportFaults : List TransportFault :=
  [{ kind := .drop, direction := .c2s, messageType := MsgType.complete.code, atSequence := 1 }]

/-- In the turn that reads the first COMPLETE frame of the connection nothing is
written. No frame is ever held back for later with this fault list. -/
def DropsFirstCompletion (aborted : Nat → Bool) (socket : Socket) : Prop :=
  ∀ read rest state (frame : Frame) later,
    AboutToRead .c2s cudaTransportFaults aborted socket read rest state →
    aborted read = false → readFrame rest = .frame frame.type frame.encode later →
    frame.type = MsgType.complete.code →
    (∀ earlier ∈ (arriving socket).take read, earlier.type ≠ MsgType.complete.code) →
    (state.deliver .c2s cudaTransportFaults frame.type frame.encode).1.written = state.written

variable {aborted : Nat → Bool} {socket : Socket}

theorem selectFault_cudaTransport (mtype : UInt32) (seq : UInt64) :
    selectFault .c2s mtype seq cudaTransportFaults =
      if mtype = MsgType.complete.code ∧ seq = 1 then cudaTransportFaults.head? else none := by
  have typed : MsgType.complete.code ≠ 0 := by decide
  by_cases completes : mtype = MsgType.complete.code
  · by_cases first : seq = 1
    · simp [cudaTransportFaults, selectFault, completes, first]
    · have other : (1 : UInt64) ≠ seq := fun same => first same.symm
      simp [cudaTransportFaults, selectFault, completes, first, other]
  · have other : MsgType.complete.code ≠ mtype := fun same => completes same.symm
    simp [cudaTransportFaults, selectFault, completes, other, typed]

theorem deliver_cudaTransport (state : Forwarder) (mtype : UInt32) (bytes : Bytes) :
    (state.deliver .c2s cudaTransportFaults mtype bytes).2 = true ∧
      (state.deliver .c2s cudaTransportFaults mtype bytes).1.written =
        if mtype = MsgType.complete.code ∧ state.seq + 1 = 1 then state.written
        else state.written ++ [bytes] := by
  have selects := selectFault_cudaTransport mtype (state.seq + 1)
  by_cases hit : mtype = MsgType.complete.code ∧ state.seq + 1 = 1
  · rw [if_pos hit] at selects ⊢
    rw [deliver_of_some selects]
    exact ⟨rfl, rfl⟩
  · rw [if_neg hit] at selects ⊢
    rw [deliver_of_none selects]
    exact ⟨rfl, rfl⟩

/-- The loop comes to every frame that arrives before the other direction aborts. -/
theorem exists_aboutToRead {read : Nat} (arrives : read ≤ (arriving socket).length)
    (lowered : ∀ turn < read, aborted turn = false) :
    ∃ rest state, AboutToRead .c2s cudaTransportFaults aborted socket read rest state := by
  induction read with
  | zero => exact ⟨socket, {}, .start⟩
  | succ read ih =>
      obtain ⟨rest, state, about⟩ := ih (by omega) fun turn before => lowered turn (by omega)
      have brings := about.arriving_eq
      rw [List.drop_eq_getElem_cons (by omega)] at brings
      obtain ⟨later, reads, _⟩ := exists_readFrame brings
      have goes := (deliver_cudaTransport state (arriving socket)[read].type
        (arriving socket)[read].encode).1
      exact ⟨later, _, about.next (lowered read (by omega)) reads (Prod.ext rfl goes)⟩

theorem lowered_of_aboutToRead {read : Nat} {rest : Socket} {state : Forwarder}
    (about : AboutToRead .c2s cudaTransportFaults aborted socket read rest state) :
    ∀ turn < read, aborted turn = false := by
  induction about with
  | start => simp
  | next _ lowered _ _ ih =>
      intro turn before
      rcases Nat.lt_succ_iff_lt_or_eq.mp before with earlier | rfl
      · exact ih turn earlier
      · exact lowered

theorem ofNat_add_one_eq_one_iff (count : Nat) : UInt64.ofNat count + 1 = 1 ↔ 2 ^ 64 ∣ count := by
  constructor
  · intro first
    have zero : UInt64.ofNat count = 0 := by simpa using first
    have number := congrArg UInt64.toNat zero
    rw [UInt64.toNat_ofNat'] at number
    exact Nat.dvd_of_mod_eq_zero number
  · intro around
    have zero : UInt64.ofNat count = 0 := by
      apply UInt64.toNat_inj.mp
      rw [UInt64.toNat_ofNat']
      exact Nat.mod_eq_zero_of_dvd around
    rw [zero]
    rfl

/-- A COMPLETE that is read anywhere but first on the connection is forwarded. -/
theorem first_completion_forwarded {position : Nat} {frame : Frame}
    (arrives : (arriving socket)[position]? = some frame)
    (completes : frame.type = MsgType.complete.code)
    (first : ∀ earlier ∈ (arriving socket).take position, earlier.type ≠ MsgType.complete.code)
    (lowered : ∀ turn ≤ position, aborted turn = false) (later : ¬ 2 ^ 64 ∣ position) :
    ¬ DropsFirstCompletion aborted socket := by
  intro drops
  obtain ⟨inside, rfl⟩ := List.getElem?_eq_some_iff.mp arrives
  have reached : ∃ rest state,
      AboutToRead .c2s cudaTransportFaults aborted socket position rest state :=
    exists_aboutToRead inside.le fun turn before => lowered turn (Nat.le_of_lt before)
  obtain ⟨rest, state, about⟩ := reached
  have brings := about.arriving_eq
  rw [List.drop_eq_getElem_cons inside] at brings
  obtain ⟨remaining, reads, _⟩ := exists_readFrame brings
  have kept := drops position rest state _ remaining about (lowered position le_rfl) reads completes
    first
  have other : state.seq + 1 ≠ 1 := by
    rw [about.seq_eq]
    exact fun around => later ((ofNat_add_one_eq_one_iff position).mp around)
  rw [(deliver_cudaTransport _ _ _).2, if_neg fun hit => other hit.2] at kept
  exact absurd kept (by simp)

theorem type_of_first {settings : TargetWorker.Settings} {fd : Int}
    {received : List (Bool × UInt32 × Bytes)}
    (sends : arriving socket <+: workerStream settings fd received) {frame : Frame}
    (arrives : (arriving socket)[0]? = some frame) : frame.type ≠ MsgType.complete.code := by
  obtain ⟨rest, whole⟩ := sends
  cases brings : arriving socket with
  | nil => simp [brings] at arrives
  | cons first others =>
      rw [brings, List.cons_append, workerStream, List.cons.injEq] at whole
      rw [brings, List.getElem?_cons_zero, Option.some.injEq] at arrives
      rw [← arrives, whole.1]
      exact show MsgType.register.code ≠ MsgType.complete.code by decide

/-- A worker that is sent one piece of work. -/
def oneDispatch : List Frame :=
  workerStream {} 3 [(false, MsgType.dispatch.code, ascii "1|2|3|4|work")]

theorem oneDispatch_eq :
    ∃ completion, completion.length < 2 ^ 32 ∧
      oneDispatch = [⟨MsgType.register.code, TargetWorker.registerPayload {}⟩,
        ⟨MsgType.workStarted.code, ascii "started"⟩, ⟨MsgType.complete.code, completion⟩] := by
  refine ⟨_, ?_, rfl⟩
  simp [TargetWorker.completePayload, TargetWorker.doWork, Digest256.length_hex, toString, decimal]

theorem exists_oneDispatch_socket : ∃ socket : Socket, arriving socket = oneDispatch := by
  obtain ⟨completion, small, stream⟩ := oneDispatch_eq
  have nonempty : oneDispatch.flatMap Frame.encode ≠ [] := by
    rw [stream, List.flatMap_cons]
    exact List.append_ne_nil_of_left_ne_nil (Frame.encode_ne_nil _) _
  refine ⟨[.data (oneDispatch.flatMap Frame.encode) nonempty], ?_⟩
  rw [arriving, incoming, incoming, List.append_nil, Frame.decodeAll_flatMap]
  rw [stream]
  simpa [TargetWorker.registerPayload, toString, decimal, ascii] using small

/-- The campaign's fault is for the first frame of the connection, which is the
REGISTER: a COMPLETE is only kept back where it is not read at all, or where the
64-bit frame counter has come round to one again. -/
theorem drops_first_completion_iff (settings : TargetWorker.Settings) (fd : Int)
    (received : List (Bool × UInt32 × Bytes)) (aborted : Nat → Bool) (socket : Socket)
    (sends : arriving socket <+: workerStream settings fd received) :
    DropsFirstCompletion aborted socket ↔
      ∀ position frame, (arriving socket)[position]? = some frame →
        frame.type = MsgType.complete.code →
        (∀ earlier ∈ (arriving socket).take position, earlier.type ≠ MsgType.complete.code) →
        (∃ turn ≤ position, aborted turn = true) ∨ position ≠ 0 ∧ 2 ^ 64 ∣ position := by
  constructor
  · intro drops position frame arrives completes first
    by_contra neither
    rw [not_or, not_and] at neither
    obtain ⟨quiet, unwrapped⟩ := neither
    have inner : position ≠ 0 := by
      rintro rfl
      exact type_of_first sends arrives completes
    refine first_completion_forwarded arrives completes first ?_ (unwrapped inner) drops
    intro turn before
    by_contra raised
    exact quiet ⟨turn, before, by simpa using raised⟩
  · intro unread read rest state frame later about lowered reads completes first
    obtain ⟨found, typed, _, brings⟩ := readFrame_eq_frame reads
    have arrives : (arriving socket)[read]? = some found := by
      rw [about.arriving_eq] at brings
      rw [← List.head?_drop, brings, List.head?_cons]
    rcases unread read found arrives (typed ▸ completes) first with
      ⟨turn, before, raised⟩ | ⟨_, around⟩
    · have quiet : aborted turn = false := by
        rcases before.eq_or_lt with rfl | earlier
        · exact lowered
        · exact lowered_of_aboutToRead about turn earlier
      rw [raised] at quiet
      cases quiet
    · have wrapped : state.seq + 1 = 1 := by
        rw [about.seq_eq]
        exact (ofNat_add_one_eq_one_iff read).mpr around
      rw [(deliver_cudaTransport _ _ _).2, if_pos ⟨completes, wrapped⟩]

/-- Where the other direction has aborted at once, the COMPLETE is not read. -/
theorem drops_first_completion_iff_aborted :
    ∃ socket, arriving socket = oneDispatch ∧ DropsFirstCompletion (fun _ => true) socket := by
  obtain ⟨socket, brings⟩ := exists_oneDispatch_socket
  have sends : arriving socket <+: oneDispatch := brings ▸ List.prefix_rfl
  exact ⟨socket, brings, (drops_first_completion_iff {} 3 _ (fun _ => true) socket sends).mpr
    fun position _ _ _ _ => .inl ⟨position, le_rfl, rfl⟩⟩

/-- The COMPLETE of a worker that was sent one piece of work is the third frame of
its connection, and is forwarded. -/
theorem completion_of_one_dispatch_forwarded :
    ∃ socket, arriving socket = oneDispatch ∧ ¬ DropsFirstCompletion (fun _ => false) socket := by
  obtain ⟨socket, brings⟩ := exists_oneDispatch_socket
  obtain ⟨completion, _, stream⟩ := oneDispatch_eq
  rw [stream] at brings
  refine ⟨socket, brings.trans stream.symm, ?_⟩
  have arrives : (arriving socket)[2]? = some ⟨MsgType.complete.code, completion⟩ := by
    rw [brings]
    rfl
  refine first_completion_forwarded arrives rfl ?_ (fun _ _ => rfl) (by decide)
  rw [brings]
  simp [MsgType.code]

end Campaign

end ChaosLab
