import ChaosLab.CoordinatorSubmit
import ChaosLab.TargetWorker

/-! Coordinator and worker together: a submit for a live worker, its dispatch
handled by that worker, and the completion accepted with the worker's result. -/

set_option autoImplicit false

namespace ChaosLab

open Foundation

namespace TargetWorker

theorem notMem_hex {byte : UInt8} (undigit : byte ∉ hexDigits) (nonzero : byte ≠ 0)
    (digest : Digest256) : byte ∉ digest.hex := by
  have table (index : Nat) : hexDigits.getD index 0 ≠ byte := by
    rw [List.getD_eq_getElem?_getD]
    cases found : hexDigits[index]? with
    | none => exact nonzero.symm
    | some digit =>
        intro same
        exact undigit (same ▸ List.mem_of_getElem? found)
  simp only [Digest256.hex, List.mem_flatMap, List.mem_cons, List.not_mem_nil, or_false, not_exists]
  intro source inside
  obtain ⟨-, written⟩ := inside
  cases written with
  | inl high => exact table _ high.symm
  | inr low => exact table _ low.symm

theorem pipe_notMem_doWork (boot : UInt64) (work : Bytes) : Byte.pipe ∉ doWork boot work :=
  notMem_hex (by decide +kernel) (by decide) _

end TargetWorker

namespace Coordinator

open TargetWorker

def Unrelated : Action → Prop
  | .frame _ type _ =>
      MsgType.ofCode? type ≠ some .submit ∧ MsgType.ofCode? type ≠ some .complete
  | _ => True

theorem acceptedSubmit?_of_unrelated {action : Action} (unrelated : Unrelated action)
    (s : CoordState) : acceptedSubmit? s action = none := by
  cases action with
  | frame fd type payload => simp [acceptedSubmit?, unrelated.1]
  | accept | sendDispatch | sendResponse | disconnect => rfl

theorem completion?_of_unrelated {action : Action} (unrelated : Unrelated action) :
    completion? action = none := by
  cases action with
  | frame fd type payload => simp [completion?, unrelated.2]
  | accept | sendDispatch | sendResponse | disconnect => rfl

structure Awaiting (submitted : CoordState) (fd : Int) (submission : Submission)
    (system : System) : Prop where
  logged : Logged system.coord
  authority : system.coord.authority = submitted.authority
  boot : system.coord.curBoot = submitted.curBoot
  hasSubmitted : system.coord.hasSubmitted = submitted.hasSubmitted
  committed : system.coord.committed = submitted.committed
  waiting : ∀ found, system.threads[fd]? = some (.dispatching found) → found = submission

theorem Awaiting.step {submitted : CoordState} {fd : Int} {submission : Submission}
    {before after : System} {action : Action} {outputs : List Effect}
    (awaiting : Awaiting submitted fd submission before) (unrelated : Unrelated action)
    (stepped : machine.step before action = some (after, outputs)) :
    Awaiting submitted fd submission after := by
  have progress := progress_of_step awaiting.logged stepped
  have unaccepted := acceptedSubmit?_of_unrelated unrelated before.coord
  rw [unaccepted, acknowledged?_of_completion_none (completion?_of_unrelated unrelated)] at progress
  have waiting : ∀ found, after.threads[fd]? = some (.dispatching found) → found = submission := by
    intro found dispatching
    rcases dispatching_of_step stepped dispatching with accepted | kept
    · simp [unaccepted] at accepted
    · exact awaiting.waiting found kept
  generalize coord : after.coord = next at progress
  cases progress with
  | keep workers fdToWorker shuttingDown =>
      exact ⟨coord ▸ awaiting.logged, coord ▸ awaiting.authority, coord ▸ awaiting.boot,
        coord ▸ awaiting.hasSubmitted, coord ▸ awaiting.committed, waiting⟩

theorem awaiting_of_run {submitted : CoordState} {fd : Int} {submission : Submission}
    {start final : System} {history : List Event} (run : Run machine start history final)
    (unrelated : ∀ event ∈ history, Unrelated event.action)
    (awaiting : Awaiting submitted fd submission start) :
    Awaiting submitted fd submission final := by
  induction run with
  | nil => exact awaiting
  | snoc previous stepped ih =>
      simp only [List.forall_mem_append, List.forall_mem_singleton] at unrelated
      exact (ih unrelated.1).step unrelated.2 stepped

section Messages

theorem parseSubmit_text {targetText work : Bytes} {target : UInt64}
    (plainTarget : Byte.pipe ∉ targetText) (spelled : stoull targetText = .ok target)
    (plainWork : Byte.pipe ∉ work) :
    parseSubmit (targetText ++ Byte.pipe :: work) = .ok (some (target, work)) := by
  simp only [parseSubmit, split_append_cons plainTarget, split_of_notMem plainWork, spelled]
  rfl

theorem split_registerPayload {settings : Settings} (plain : Byte.pipe ∉ settings.name) :
    split (registerPayload settings) Byte.pipe =
      [settings.name, toString settings.id, toString settings.boot] := by
  have absent : ∀ value, Byte.pipe ∉ toString value := notMem_toString rfl
  refine split_eq_iff.mpr ⟨by simp, by simp [absent, plain], ?_⟩
  simp [registerPayload]

/-- The worker reads a dispatch as the coordinator wrote it. -/
theorem handleDispatch_sendDispatch (s : CoordState) {work : Bytes}
    (plain : Byte.pipe ∉ work) {settings : Settings} (cudaOff : settings.cuda = false)
    (roundtrip : Bool) (fd : Int) :
    handleDispatch settings roundtrip (authorityPayload s ++ [Byte.pipe] ++ work) fd =
      [.send fd .workStarted (ascii "started"),
        .send fd .complete (completePayload settings (toString s.epoch) (toString s.curAttempt)
          (toString s.curGen) (toString s.curDispatch) (doWork settings.boot work))] := by
  rw [handleDispatch, List.append_assoc, List.singleton_append, split_authorityPayload_append,
    split_of_notMem plain]
  simp [cudaOff]

theorem split_completePayload (settings : Settings) (epoch attempt gen dispatch : UInt64)
    {result : Bytes} (plain : Byte.pipe ∉ result) :
    split (completePayload settings (toString epoch) (toString attempt) (toString gen)
      (toString dispatch) result) Byte.pipe =
      [toString epoch, toString attempt, toString gen, toString dispatch,
        toString settings.id, toString settings.boot, result] := by
  have absent : ∀ value, Byte.pipe ∉ toString value := notMem_toString rfl
  refine split_eq_iff.mpr ⟨by simp, by simp [absent, plain], ?_⟩
  simp [completePayload]

/-- The coordinator reads a completion as the worker wrote it. -/
theorem parseComplete_completePayload (settings : Settings)
    (epoch attempt gen dispatch : UInt64) {result : Bytes} (plain : Byte.pipe ∉ result) :
    parseComplete (completePayload settings (toString epoch) (toString attempt) (toString gen)
      (toString dispatch) result) =
      .ok (some ⟨epoch, attempt, gen, dispatch, settings.id, settings.boot, result⟩) := by
  rw [parseComplete, split_completePayload settings epoch attempt gen dispatch plain]
  simp only [stoull_toString]
  rfl

end Messages

theorem Ledger.fresh {submits : List (Int × Authority)} {acks : List CompleteRequest}
    {s : CoordState} (ledger : Ledger submits acks s) (few : submits.length < 2 ^ 64)
    {target : UInt64} {worker : Worker} {request : CompleteRequest}
    (next : request.authority = (allocate s target worker).authority) :
    signature request ∉ s.committed := by
  intro committed
  obtain ⟨earlier, member, same⟩ := (ledger.committed _).mp committed
  have issued := ledger.acknowledgedIssued earlier member
  rw [(signature_inj same).1, next, ledger.issued, List.mem_map] at issued
  obtain ⟨count, inside, old⟩ := issued
  have bounds := List.mem_range'_1.mp inside
  have numbers := congrArg (fun authority => authority.dispatch.toNat) old
  simp only [authorityAt, CoordState.authority, allocate, ledger.nextDispatch, ofNat_succ,
    UInt64.toNat_ofNat'] at numbers
  omega

theorem sendDispatch_outputs {before after : System} {fd : Int} {sent : Bool}
    {outputs : List Effect}
    (stepped : machine.step before (.sendDispatch fd sent) = some (after, outputs)) :
    ∃ submission, before.threads[fd]? = some (.dispatching submission) ∧
      outputs = sendDispatch before.coord submission := by
  cases stepped_of_step stepped with
  | sendDispatch ready => exact ⟨_, ready, rfl⟩

theorem Awaiting.acknowledges {submitted : CoordState} {fd connection : Int}
    {submission : Submission} {system : System} {payload : Bytes} {request : CompleteRequest}
    (awaiting : Awaiting submitted fd submission system)
    (ready : system.threads[connection]? = some .receiving)
    (read : parseComplete payload = .ok (some request))
    (current : Current submitted request) (fresh : signature request ∉ submitted.committed) :
    ∃ final outputs, machine.step system (.frame connection MsgType.complete.code payload) =
        some (final, outputs) ∧
      Effect.send connection .completeAck (ascii "committed") ∈ outputs ∧
      final.coord.sigResult[signature request]? = some request.result := by
  have stillCurrent : Current system.coord request := by
    rw [current_iff] at current ⊢
    rwa [awaiting.authority, awaiting.boot, awaiting.hasSubmitted]
  rw [← awaiting.committed] at fresh
  have stepped := step_complete ready (MsgType.ofCode?_code .complete) read
  rw [completeLocked_of_fresh stillCurrent fresh] at stepped
  exact ⟨_, _, stepped, by simp [acceptance], by simp [commit]⟩

/-- A submit for a live worker succeeds: whatever else happens before the worker's
completion arrives, other submits and completions excepted, the completion is
acknowledged and the worker's result is stored. -/
theorem fresh_work_succeeds {argv : List Bytes} {history : List Event} {system : System}
    (process : ProcessRun argv history system) (few : (issued history).length < 2 ^ 64)
    {id boot : UInt64} {worker : Worker}
    (known : system.coord.workers[id]? = some worker) (alive : worker.alive = true)
    (sameBoot : worker.boot = boot)
    {fd : Int} (ready : system.threads[fd]? = some .receiving)
    {targetText work : Bytes} (plainTarget : Byte.pipe ∉ targetText)
    (spelled : stoull targetText = .ok id) (plain : Byte.pipe ∉ work)
    {settings : Settings} (sameId : settings.id = id) (bootId : settings.boot = boot)
    (cudaOff : settings.cuda = false) :
    ∃ submitted, machine.step system (.frame fd MsgType.submit.code
        (targetText ++ Byte.pipe :: work)) = some (submitted, []) ∧
      ∀ later after, Run machine submitted later after →
        (∀ event ∈ later, Unrelated event.action) →
      ∀ event ∈ later, ∀ sent, event.action = .sendDispatch fd sent →
      ∃ dispatch, event.outputs = [.send worker.fd .dispatch dispatch] ∧
      ∀ roundtrip workerFd, ∃ complete request,
        handleDispatch settings roundtrip dispatch workerFd =
          [.send workerFd .workStarted (ascii "started"), .send workerFd .complete complete] ∧
        parseComplete complete = .ok (some request) ∧
      ∀ connection, after.threads[connection]? = some .receiving →
      ∃ final outputs,
        machine.step after (.frame connection MsgType.complete.code complete) =
          some (final, outputs) ∧
        Effect.send connection .completeAck (ascii "committed") ∈ outputs ∧
        final.coord.sigResult[signature request]? = some (doWork boot work) := by
  have live : liveWorker? system.coord id = some worker := by simp [liveWorker?, known, alive]
  have read := parseSubmit_text plainTarget spelled plain
  refine ⟨_, step_submit ready (MsgType.ofCode?_code .submit) read live, ?_⟩
  intro later after run unrelated event member sent sends
  have start : Awaiting (allocate system.coord id worker) fd ⟨work, worker.fd⟩
      { coord := allocate system.coord id worker,
        threads := system.threads.insert fd (.dispatching ⟨work, worker.fd⟩) } :=
    { logged := process.logged
      authority := rfl
      boot := rfl
      hasSubmitted := rfl
      committed := rfl
      waiting := by simp }
  have atComplete := awaiting_of_run run unrelated start
  obtain ⟨earlier, rest, rfl⟩ := List.append_of_mem member
  obtain ⟨before, stepped, -⟩ := run.at_split
  have atDispatch := awaiting_of_run before (List.forall_mem_append.mp unrelated).1 start
  rw [sends] at stepped
  obtain ⟨submission, dispatching, sentFrame⟩ := sendDispatch_outputs stepped
  obtain rfl := atDispatch.waiting submission dispatching
  refine ⟨_, sentFrame, fun roundtrip workerFd => ?_⟩
  have handled := handleDispatch_sendDispatch event.before.coord plain cudaOff roundtrip workerFd
  have parsed := parseComplete_completePayload settings event.before.coord.epoch
    event.before.coord.curAttempt event.before.coord.curGen event.before.coord.curDispatch
    (pipe_notMem_doWork settings.boot work)
  refine ⟨_, _, handled, parsed, fun connection reading => ?_⟩
  rw [sameId, bootId] at parsed ⊢
  have current : Current (allocate system.coord id worker) ⟨event.before.coord.epoch,
      event.before.coord.curAttempt, event.before.coord.curGen, event.before.coord.curDispatch,
      id, boot, doWork boot work⟩ :=
    current_iff.mpr ⟨rfl, atDispatch.authority, sameBoot.symm⟩
  rw [length_issued] at few
  exact atComplete.acknowledges reading parsed current
    (process.ledger_holds.fresh few atDispatch.authority)

theorem fresh_work_succeeds_first_submit :
    ∃ (history : List Event) (final : System) (outputs : List Effect) (sig : Bytes),
      ProcessRun [] history final ∧ outputs ∈ history.map (·.outputs) ∧
      Effect.send 4 .completeAck (ascii "committed") ∈ outputs ∧
      final.coord.sigResult[sig]? = some (doWork 3 (ascii "a")) := by
  obtain ⟨history, system, run, known, ready, count, next⟩ := machine.exists_run { coord := {} }
    [.accept 4, .frame 4 MsgType.register.code (ascii "w|7|3"), .accept 5]
    (fun history final =>
      final.coord.workers[(7 : UInt64)]? = some ⟨7, 3, ascii "w", 4, true⟩ ∧
      final.threads[(5 : Int)]? = some .receiving ∧ issued history = [] ∧
      ∀ result ∈ machine.step final
          (.frame 5 MsgType.submit.code (ascii "7" ++ Byte.pipe :: ascii "a")),
        result.1.threads[(5 : Int)]? = some (.dispatching ⟨ascii "a", 4⟩) ∧
        result.1.threads[(4 : Int)]? = some .receiving) (by decide +kernel)
  have process : ProcessRun [] history system := ⟨{}, rfl, run⟩
  have settings : ({ name := ascii "w", id := 7, boot := 3 } : Settings).id = 7 := rfl
  obtain ⟨submitted, stepped, continued⟩ := fresh_work_succeeds process (by rw [count]; decide)
    known rfl rfl ready (by decide +kernel : Byte.pipe ∉ ascii "7") (by decide +kernel)
    (by decide +kernel : Byte.pipe ∉ ascii "a") settings rfl rfl
  obtain ⟨dispatching, receiving⟩ := next (submitted, []) stepped
  have sends := step_sendDispatch dispatching true
  obtain ⟨dispatch, -, handled⟩ := continued _ _ (Run.single sends) (by simp [Unrelated]) _
    (List.mem_singleton_self _) true rfl
  obtain ⟨complete, request, -, -, completes⟩ := handled false 9
  obtain ⟨final, outputs, answered, acknowledged, stored⟩ := completes 4
    (by simpa [getElem?_insert_ite] using receiving)
  refine ⟨_, final, outputs, _, ((process.continued (.single stepped)).continued
    (.single sends)).continued (.single answered), by simp, acknowledged, stored⟩

end Coordinator

end ChaosLab
