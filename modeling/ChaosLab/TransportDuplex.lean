import ChaosLab.Foundation.StopFlag
import ChaosLab.TransportEndToEnd

/-! A connection of the interposer: `run_connection` forwards the two directions on
threads of their own, which share the abort flag. -/

set_option autoImplicit false

namespace ChaosLab

open Foundation

/-- A turn of the loop of `forward_frames` after its look at the flag. -/
def forwardTurn (faults : List TransportFault) (dir : Direction) :
    Socket × Forwarder → Turn (Socket × Forwarder) Bool
  | (socket, state) =>
      match readFrame socket with
      | .waiting => .waits
      | .aborts => .returns (socket, state) true
      | .frame mtype bytes rest =>
          match state.deliver dir faults mtype bytes with
          | (state, false) => .returns (rest, state) false
          | (state, true) => .continues (rest, state)

/-- The two threads of `run_connection`, reading these sockets. -/
def runConnection (faults : List TransportFault) :
    Machine (Crew Direction (Socket × Forwarder) Bool) Direction Unit :=
  sharing (forwardTurn faults) true

def connected (sockets : Direction → Socket) : Crew Direction (Socket × Forwarder) Bool where
  loops := fun dir => ⟨(sockets dir, {}), .looking⟩

theorem forwardFrames_of_turns {faults : List TransportFault} {dir : Direction}
    {start : Socket × Forwarder} {count : Nat} {last : Socket × Forwarder}
    (turns : Turns (forwardTurn faults dir) start count last) {flag : Nat → Bool}
    (lowered : ∀ turn < count, flag turn = false) :
    forwardFrames dir faults flag 0 start.1 start.2 =
      forwardFrames dir faults flag count last.1 last.2 := by
  induction turns with
  | zero => rfl
  | @succ count middle next _ continues ih =>
      rw [ih fun turn small => lowered turn (by omega)]
      simp only [forwardTurn] at continues
      split at continues
      · cases continues
      · cases continues
      · rename_i mtype bytes rest read
        rw [forwardFrames_of_frame (lowered count (by omega)) read]
        generalize middle.2.deliver dir faults mtype bytes = delivered at continues ⊢
        obtain ⟨state, goesOn⟩ := delivered
        cases goesOn with
        | false => cases continues
        | true =>
            cases continues
            rfl

theorem forwardFrames_of_returns {faults : List TransportFault} {dir : Direction}
    {state last : Socket × Forwarder} {result : Bool}
    (returns : forwardTurn faults dir state = .returns last result) {flag : Nat → Bool} {turn : Nat}
    (lowered : flag turn = false) :
    forwardFrames dir faults flag turn state.1 state.2 = (last.2, some result) := by
  simp only [forwardTurn] at returns
  split at returns
  · cases returns
  · rename_i read
    cases returns
    rw [forwardFrames_of_stopped lowered (by simp [read]), read]
    rfl
  · rename_i mtype bytes rest read
    rw [forwardFrames_of_frame lowered read]
    generalize state.2.deliver dir faults mtype bytes = delivered at returns ⊢
    obtain ⟨after, goesOn⟩ := delivered
    cases goesOn with
    | false =>
        cases returns
        rfl
    | true => cases returns

/-- A direction that has returned by itself: alone it would have done the same. -/
theorem forwardFrames_of_endedItself {faults : List TransportFault} {sockets : Direction → Socket}
    {crew : Crew Direction (Socket × Forwarder) Bool} {dir : Direction}
    (ended : EndedItself (forwardTurn faults) (fun dir => (sockets dir, {})) crew dir) :
    ∃ result, (crew.loops dir).phase = .returned result ∧
      forwardFrames dir faults (fun _ => false) 0 (sockets dir) {} =
        ((crew.loops dir).state.2, some result) := by
  obtain ⟨count, state, result, turns, returns, phase⟩ := ended
  refine ⟨result, phase, ?_⟩
  rw [forwardFrames_of_turns turns fun _ _ => rfl]
  exact forwardFrames_of_returns returns rfl

/-- In any interleaving each direction that has returned is a run of `forward_frames` on
its own socket: either never told to abort, or told from some turn on, the other
direction having returned by itself. -/
theorem run_connection_directions {faults : List TransportFault} {sockets : Direction → Socket}
    {history : List (Transition (Crew Direction (Socket × Forwarder) Bool) Direction Unit)}
    {final : Crew Direction (Socket × Forwarder) Bool}
    (run : Run (runConnection faults) (connected sockets) history final) (dir : Direction)
    {result : Bool} (returned : (final.loops dir).phase = .returned result) :
    (forwardFrames dir faults (fun _ => false) 0 (sockets dir) {} =
        ((final.loops dir).state.2, some result)) ∨
      (result = true ∧ (∃ turn, forwardFrames dir faults (fun later => decide (turn ≤ later)) 0
          (sockets dir) {} = ((final.loops dir).state.2, some true)) ∧
        ∃ other ≠ dir, ∃ ended, (final.loops other).phase = .returned ended ∧
          forwardFrames other faults (fun _ => false) 0 (sockets other) {} =
            ((final.loops other).state.2, some ended)) := by
  have orderly : Orderly (forwardTurn faults) true (fun dir => (sockets dir, {})) final :=
    orderly_of_run run
  rcases orderly.cameTo dir with ⟨going, -⟩ | ended | ⟨⟨count, turns⟩, phase, other, apart, ended⟩
  · exact absurd returned (going result)
  · obtain ⟨same, phase, alone⟩ := forwardFrames_of_endedItself ended
    rw [returned, LoopPhase.returned.injEq] at phase
    exact .inl (phase ▸ alone)
  · rw [returned, LoopPhase.returned.injEq] at phase
    refine .inr ⟨phase, ⟨count, ?_⟩, other, apart, forwardFrames_of_endedItself ended⟩
    rw [forwardFrames_of_turns turns fun turn small => decide_eq_false (by omega)]
    exact forwardFrames_of_aborted (decide_eq_true (Nat.le_refl count))

section Witness

theorem readFrame_closed : readFrame [.closed] = .aborts := by
  have short : (incoming ([.closed] : Socket)).length < Frame.header := by decide
  obtain ⟨later, headed⟩ := gather_nil_of_lt short
  simp only [readFrame, readExact, headed, afterIncoming, interruption]

theorem readFrame_nil : readFrame [] = .waiting := by
  have short : (incoming ([] : Socket)).length < Frame.header := by decide
  obtain ⟨later, headed⟩ := gather_nil_of_lt short
  simp only [readFrame, readExact, headed, afterIncoming, interruption]

/-- The client closes at once; the other direction is told so. -/
theorem run_of_close {sockets : Direction → Socket} (closed : sockets .c2s = [.closed]) :
    ∃ history final, Run (runConnection []) (connected sockets) history final ∧
      (final.loops .c2s).phase = .returned true ∧ (final.loops .s2c).phase = .returned true := by
  have went : forwardTurn [] .c2s (sockets .c2s, {}) = .returns ([.closed], {}) true := by
    simp only [forwardTurn, closed, readFrame_closed]
  have start : (runConnection []).step (connected sockets) .c2s =
      some ((connected sockets).set .c2s ⟨(sockets .c2s, {}), .working⟩ false, []) := rfl
  have turn : (runConnection []).step
      ((connected sockets).set .c2s ⟨(sockets .c2s, {}), .working⟩ false) .c2s =
      some (((connected sockets).set .c2s ⟨(sockets .c2s, {}), .working⟩ false).set .c2s
        ⟨([.closed], {}), .returned true⟩ true, []) := by
    simp [runConnection, sharing, Crew.set_self, went]
  have stop : (runConnection []).step
      (((connected sockets).set .c2s ⟨(sockets .c2s, {}), .working⟩ false).set .c2s
        ⟨([.closed], {}), .returned true⟩ true) .s2c =
      some ((((connected sockets).set .c2s ⟨(sockets .c2s, {}), .working⟩ false).set .c2s
        ⟨([.closed], {}), .returned true⟩ true).set .s2c ⟨(sockets .s2c, {}), .returned true⟩ true,
        []) := rfl
  exact ⟨_, _, .snoc (.snoc (.snoc .nil start) turn) stop, rfl, rfl⟩

theorem run_connection_directions_closed :
    ∃ final : Crew Direction (Socket × Forwarder) Bool,
      ∃ turn, forwardFrames .s2c [] (fun later => decide (turn ≤ later)) 0 [] {} =
        ((final.loops .s2c).state.2, some true) := by
  obtain ⟨history, final, run, -, returned⟩ :=
    @run_of_close (fun dir => if dir = .c2s then [.closed] else []) rfl
  refine ⟨final, ?_⟩
  rcases run_connection_directions run .s2c returned with alone | ⟨-, told, -⟩
  · have waits : ∀ mtype bytes rest, readFrame [] ≠ .frame mtype bytes rest := by
      simp [readFrame_nil]
    have waiting : forwardFrames .s2c [] (fun _ => false) 0 [] {} = ({}, none) := by
      rw [forwardFrames_of_stopped rfl waits, readFrame_nil]
      rfl
    simp [waiting] at alone
  · exact told

end Witness

end ChaosLab
