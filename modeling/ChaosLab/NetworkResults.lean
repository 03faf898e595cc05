import ChaosLab.NetworkProperties

/-! What is in the commit log when the completions come from worker processes, and
that the two sides never misread each other. -/

set_option autoImplicit false

namespace ChaosLab

namespace Network

open Foundation Coordinator TargetWorker

section Process

variable {argv : List Bytes} {history : List Event} {final : State}

end Process

section Handled

variable {settings : Settings} {log : List (Authority × Bytes)} {frame : Frame}

theorem numericText_toString (value : UInt64) : NumericText (toString value) :=
  stoull_isOk_iff.mp ⟨value, stoull_toString value⟩

theorem plain_of_length_split (settings : Settings)
    (three : (split (registerPayload settings) Byte.pipe).length = 3) :
    Byte.pipe ∉ settings.name := by
  have absent : ∀ value, (toString value).count Byte.pipe = 0 :=
    fun value => List.count_eq_zero.mpr (notMem_toString rfl value)
  simp only [length_split, registerPayload, List.count_append, absent, List.count_singleton_self]
    at three
  exact List.count_eq_zero.mp (by omega)

/-- Nothing that a worker sends makes a handler throw. -/
theorem FromWorker.numeric (sent : FromWorker settings log frame) :
    ∀ part ∈ numericParts frame.type frame.payload, NumericText part := by
  cases sent with
  | register =>
      simp only [numericParts, MsgType.ofCode?_code]
      split
      · rename_i three
        rw [split_registerPayload (plain_of_length_split settings three)]
        simp [numericText_toString]
      · simp
  | started | pong => simp [numericParts]
  | complete roundtrip =>
      exact (parseComplete_returns_iff (MsgType.ofCode?_code .complete)).mp
        ⟨_, parseComplete_completedText settings _ _ _⟩

/-- Only the name in a worker's `REGISTER` can make a frame too large. -/
theorem FromWorker.receivable (sent : FromWorker settings log frame)
    (registers : MsgType.ofCode? frame.type = some .register → Receivable frame) :
    Receivable frame := by
  cases sent with
  | register => exact registers (MsgType.ofCode?_code .register)
  | started | pong => decide
  | @complete authority work roundtrip dispatched =>
      have digits := length_toString_le
      have epoch := digits authority.epoch
      have attempt := digits authority.attempt
      have gen := digits authority.gen
      have dispatch := digits authority.dispatch
      have id := digits settings.id
      have boot := digits settings.boot
      have limit : maxPayload.toNat = 64 * 2 ^ 20 := rfl
      simp only [Receivable, completedText, completePayload, doWork, Digest256.length_hex,
        List.length_append, List.length_singleton, limit]
      omega

theorem FromWorker.not_submit (sent : FromWorker settings log frame) :
    MsgType.ofCode? frame.type ≠ some .submit ∧ MsgType.ofCode? frame.type ≠ some .shutdown := by
  cases sent <;> simp

theorem frameStep_of_switchFrame {type : UInt32} {payload : Bytes} {fd : Int} {s coord : CoordState}
    {outputs : List Effect}
    (other : MsgType.ofCode? type ≠ some .submit ∧ MsgType.ofCode? type ≠ some .shutdown)
    (returned : Coordinator.switchFrame type payload fd true s = .ok (coord, outputs)) :
    frameStep type payload fd s = .ok (coord, outputs, .receiving) := by
  simp only [frameStep, returned]
  split
  · exact absurd ‹_› other.1
  · exact absurd ‹_› other.2
  · rfl

/-- No frame of a worker ends the coordinator, a completion is judged as the request that
the worker meant, and a worker answers every dispatch. -/
theorem worker_frames_handled {argv : List Bytes} {history : List Event} {final : State}
    (process : ProcessRun argv history final) {fd : Int}
    (peer : final.peers fd = .worker settings) :
    (∀ frame rest, final.toCoordinator fd = frame :: rest →
      (MsgType.ofCode? frame.type = some .register → Receivable frame) →
      final.system.threads[fd]? = some .receiving →
      ∃ next outputs, machine.step final (.receive fd) = some (next, outputs) ∧
        (MsgType.ofCode? frame.type = some .complete → ∃ authority work roundtrip,
          (authority, work) ∈ dispatches (coordinatorEvents history) ∧
          outputs = (completeLocked final.system.coord (completed settings authority
            (doWork settings.boot (performed settings roundtrip work))) fd).2)) ∧
    (∀ frame rest, final.toPeer fd = frame :: rest → Receivable frame → final.online fd = true →
      MsgType.ofCode? frame.type = some .dispatch → ∀ roundtrip, ∃ authority work next,
        (authority, work) ∈ dispatches (coordinatorEvents history) ∧
        machine.step final (.work fd roundtrip) = some (next,
          [.send fd .workStarted (ascii "started"),
            .send fd .complete (completedText settings authority
              (doWork settings.boot (performed settings roundtrip work)))])) := by
  constructor
  · intro frame rest waiting registers ready
    have sent : From (dispatches (coordinatorEvents history)) (final.peers fd) frame :=
      process.faithful.toCoordinator fd frame (waiting ▸ List.mem_cons_self)
    rw [peer] at sent
    change FromWorker settings _ frame at sent
    have small := sent.receivable registers
    obtain ⟨⟨coord, outputs⟩, returned⟩ := (switchFrame_returns_iff frame.type frame.payload fd true
      final.system.coord).mpr sent.numeric
    have framed := step_frame ready (frameStep_of_switchFrame sent.not_submit returned)
    obtain ⟨next, stepped⟩ : ∃ next, machine.step final (.receive fd) = some (next, outputs) := by
      simp [machine, step, coordinatorAction?, waiting, small, framed]
    refine ⟨next, outputs, stepped, fun named => ?_⟩
    cases sent with
    | register | started | pong => simp at named
    | @complete authority work roundtrip dispatched =>
        refine ⟨authority, work, roundtrip, dispatched, ?_⟩
        simp only [Coordinator.switchFrame, named, handleComplete,
          parseComplete_completedText] at returned
        exact congrArg Prod.snd (Except.ok.inj returned).symm
  · intro frame rest waiting small online named roundtrip
    obtain ⟨authority, work, dispatched, plain, text⟩ :=
      process.faithful.toPeer fd frame (waiting ▸ List.mem_cons_self) named
    have handled := @handleDispatch_authorityText settings roundtrip authority work plain fd
    obtain ⟨next, stepped⟩ : ∃ next, machine.step final (.work fd roundtrip) = some (next,
        [.send fd .workStarted (ascii "started"),
          .send fd .complete (completedText settings authority
            (doWork settings.boot (performed settings roundtrip work)))]) := by
      rw [← text] at handled
      simp [machine, step, coordinatorAction?, peerStep, online, peer, waiting, small,
        TargetWorker.switchFrame, named, handled]
    exact ⟨authority, work, next, dispatched, stepped⟩

theorem worker_frames_handled_dispatch : ∃ (history : List Event) (final next : State)
    (complete : Bytes), ProcessRun [] history final ∧
      machine.step final (.work 4 false) = some (next,
        [.send 4 .workStarted (ascii "started"), .send 4 .complete complete]) := by
  obtain ⟨history, final, run, peer, online, waiting⟩ := machine.exists_run
    { system := { coord := {} } }
    [.connect 4 (.worker { name := ascii "w", id := 7, boot := 3 }), .receive 4,
      .connect 5 .controller, .request 5 ⟨MsgType.submit.code, ascii "7|a"⟩, .receive 5,
      .sendDispatch 5 true, .work 4 false]
    (fun _ final => final.peers 4 = .worker { name := ascii "w", id := 7, boot := 3 } ∧
      final.online 4 = true ∧
      final.toPeer 4 = [⟨MsgType.dispatch.code, ascii "1|1|1|1|a"⟩]) (by decide +kernel)
  have process : ProcessRun [] history final := ⟨{}, rfl, run⟩
  obtain ⟨authority, work, next, -, stepped⟩ := (worker_frames_handled process peer).2 _ _ waiting
    (by decide) online (MsgType.ofCode?_code .dispatch) false
  exact ⟨history, final, next, _, process, stepped⟩

end Handled

end Network

end ChaosLab
