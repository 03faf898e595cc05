import ChaosLab.CoordinatorLedger

/-! The numbers a process hands out: the k-th accepted submit gets attempt,
generation and dispatch k, so authority is ordered by submits and a completion
with older numbers is turned away. -/

set_option autoImplicit false

namespace ChaosLab

namespace Coordinator

open Foundation

/-- The numbers of the submit in position `count`, from one. -/
def authorityAt (epoch : UInt64) (count : Nat) : Authority :=
  ⟨epoch, .ofNat count, .ofNat count, .ofNat count⟩

theorem ofNat_inj {left right : Nat} (leftSmall : left < 2 ^ 64) (rightSmall : right < 2 ^ 64) :
    UInt64.ofNat left = UInt64.ofNat right ↔ left = right := by
  rw [← UInt64.toNat_inj, UInt64.toNat_ofNat_of_lt' leftSmall,
    UInt64.toNat_ofNat_of_lt' rightSmall]

theorem ofNat_succ (count : Nat) : UInt64.ofNat count + 1 = UInt64.ofNat (count + 1) :=
  (UInt64.ofNat_add count 1).symm

structure Numbered (submits : List (Int × Authority)) (s : CoordState) : Prop where
  nextAttempt : s.nextAttempt = .ofNat submits.length
  nextGen : s.nextGen = .ofNat submits.length
  nextDispatch : s.nextDispatch = .ofNat submits.length
  current : s.authority = authorityAt s.epoch submits.length
  hasSubmitted : s.hasSubmitted = decide (submits ≠ [])
  issued : submits.map (·.2) = (List.range' 1 submits.length).map (authorityAt s.epoch)

theorem Progress.numbered {before after : CoordState} {submits : List (Int × Authority)}
    {submit : Option Int} {acknowledged : Option CompleteRequest}
    (progress : Progress before after submit acknowledged) (numbered : Numbered submits before) :
    Numbered (submits ++ (submit.map fun fd => (fd, after.authority)).toList) after := by
  cases progress with
  | @submit fd target worker live =>
      have authority : (allocate before target worker).authority =
          authorityAt before.epoch (submits.length + 1) := by
        simp [CoordState.authority, allocate, authorityAt, numbered.nextAttempt,
          numbered.nextGen, numbered.nextDispatch]
      exact
        { nextAttempt := by simp [allocate, numbered.nextAttempt]
          nextGen := by simp [allocate, numbered.nextGen]
          nextDispatch := by simp [allocate, numbered.nextDispatch]
          current := by
            rw [authority]
            simp [allocate]
          hasSubmitted := by simp [allocate]
          issued := by
            rw [List.map_append, numbered.issued, authority]
            simp [allocate, List.range'_concat, Nat.add_comm] }
  | commit | keep =>
      simp only [Option.map_none, Option.toList_none, List.append_nil]
      exact { numbered with }

theorem numbered_initial (epoch : UInt64) (stateFile : Bytes) :
    Numbered [] { epoch := epoch, stateFile := stateFile } where
  nextAttempt := rfl
  nextGen := rfl
  nextDispatch := rfl
  current := rfl
  hasSubmitted := rfl
  issued := rfl

theorem Numbered.authority_of_getElem? {submits : List (Int × Authority)} {s : CoordState}
    (numbered : Numbered submits s) {index : Nat} {entry : Int × Authority}
    (found : submits[index]? = some entry) :
    index < submits.length ∧ entry.2 = authorityAt s.epoch (index + 1) := by
  have small : index < submits.length := (List.getElem?_eq_some_iff.mp found).1
  have mapped : (submits.map (·.2))[index]? = some entry.2 := by simp [found]
  rw [numbered.issued, List.getElem?_map, List.getElem?_range' small, Option.map_some] at mapped
  refine ⟨small, (Option.some.inj mapped).symm.trans ?_⟩
  rw [Nat.one_mul, Nat.add_comm]

theorem Numbered.mem_of_current {submits : List (Int × Authority)} {s : CoordState}
    (numbered : Numbered submits s) {request : CompleteRequest} (current : Current s request) :
    request.authority ∈ submits.map (·.2) := by
  obtain ⟨submitted, authority, -⟩ := current_iff.mp current
  rw [numbered.hasSubmitted, decide_eq_true_eq] at submitted
  have positive := List.length_pos_iff.mpr submitted
  rw [authority, numbered.issued, numbered.current, List.mem_map]
  exact ⟨submits.length, List.mem_range'_1.mpr (by omega), rfl⟩

section Process

variable {argv : List Bytes} {history : List Event} {final : System}

theorem ProcessRun.numbered (process : ProcessRun argv history final) :
    Numbered (submissions history) final.coord := by
  exact process.ledger (fun submits _ s => Numbered submits s)
    (fun _ progress ih => progress.numbered ih) numbered_initial

theorem ProcessRun.issued_eq (process : ProcessRun argv history final) :
    issued history = (List.range' 1 (issued history).length).map
      (authorityAt final.coord.epoch) := by
  rw [length_issued]
  exact process.numbered.issued

theorem ProcessRun.epoch_eq {coord : CoordState} (process : ProcessRun argv history final)
    (booted : parseArgs {} argv = .ok coord) : final.coord.epoch = coord.epoch := by
  obtain ⟨start, started, run⟩ := process
  obtain rfl := Except.ok.inj (started.symm.trans booted)
  refine ledger_of_run (fun _ _ s => s.epoch = start.epoch) ?_ run (logged_of_booted booted) rfl
  intro _ _ before after _ _ _ progress same
  cases progress <;> exact same

/-- A completion that does not name the latest submit: another epoch, a number
that an earlier submit got, or no submit yet. -/
def Stale (history : List Event) (s : CoordState) (request : CompleteRequest) : Prop :=
  request.epoch ≠ s.epoch ∨
  (∃ earlier ∈ (issued history).dropLast, request.attempt = earlier.attempt ∨
    request.gen = earlier.gen ∨ request.dispatch = earlier.dispatch) ∨
  issued history = []

theorem ProcessRun.earlier_ne (process : ProcessRun argv history final)
    (few : (issued history).length < 2 ^ 64) {earlier : Authority}
    (member : earlier ∈ (issued history).dropLast) :
    earlier.attempt ≠ final.coord.curAttempt ∧ earlier.gen ≠ final.coord.curGen ∧
      earlier.dispatch ≠ final.coord.curDispatch := by
  have current := process.numbered.current
  rw [← length_issued] at current
  simp only [CoordState.authority, authorityAt, Authority.mk.injEq] at current
  rw [process.issued_eq, List.dropLast_eq_take, ← List.map_take] at member
  obtain ⟨count, inside, rfl⟩ := List.mem_map.mp member
  obtain ⟨index, small, rfl⟩ := List.mem_take_iff_getElem.mp inside
  simp only [List.getElem_range', List.length_map, List.length_range'] at small ⊢
  simp only [authorityAt, current, ne_eq, ofNat_inj (show 1 + 1 * index < 2 ^ 64 by omega) few]
  omega

theorem ProcessRun.not_current_of_stale (process : ProcessRun argv history final)
    (few : (issued history).length < 2 ^ 64) {request : CompleteRequest}
    (stale : Stale history final.coord request) : ¬ Current final.coord request := by
  intro current
  obtain ⟨submitted, authority, -⟩ := current_iff.mp current
  simp only [CompleteRequest.authority, CoordState.authority, Authority.mk.injEq] at authority
  obtain ⟨epoch, attempt, gen, dispatch⟩ := authority
  rcases stale with other | ⟨earlier, member, same⟩ | empty
  · exact other epoch
  · obtain ⟨attemptNe, genNe, dispatchNe⟩ := process.earlier_ne few member
    rcases same with same | same | same
    · exact attemptNe (same.symm.trans attempt)
    · exact genNe (same.symm.trans gen)
    · exact dispatchNe (same.symm.trans dispatch)
  · rw [process.numbered.hasSubmitted] at submitted
    simp only [issued, List.map_eq_nil_iff] at empty
    simp [empty] at submitted

/-- A completion that does not name the latest submit, read off the columns of its
payload: its epoch column is not the epoch, a column has a number that an earlier
submit got, or there is no submit yet. A payload without seven columns names none. -/
def StalePayload (history : List Event) (s : CoordState) (payload : Bytes) : Prop :=
  match split payload Byte.pipe with
  | [epoch, attempt, gen, dispatch, _, _, _] =>
      stoull epoch ≠ .ok s.epoch ∨
      (∃ earlier ∈ (issued history).dropLast, stoull attempt = .ok earlier.attempt ∨
        stoull gen = .ok earlier.gen ∨ stoull dispatch = .ok earlier.dispatch) ∨
      issued history = []
  | _ => True

theorem stalePayload_of_unissued {s : CoordState} (unissued : issued history = [])
    (payload : Bytes) : StalePayload history s payload := by
  unfold StalePayload
  split
  · exact .inr (.inr unissued)
  · trivial

theorem StalePayload.stale {s : CoordState} {payload : Bytes} {request : CompleteRequest}
    (stale : StalePayload history s payload) (read : parseComplete payload = .ok (some request)) :
    Stale history s request := by
  unfold parseComplete at read
  unfold StalePayload at stale
  split at read
  · rename_i parts
    simp only [parts] at stale
    obtain ⟨epoch, epochRead, read⟩ := bind_ok read
    obtain ⟨attempt, attemptRead, read⟩ := bind_ok read
    obtain ⟨gen, genRead, read⟩ := bind_ok read
    obtain ⟨dispatch, dispatchRead, read⟩ := bind_ok read
    obtain ⟨worker, -, read⟩ := bind_ok read
    obtain ⟨boot, -, read⟩ := bind_ok read
    cases read
    simpa only [Stale, epochRead, attemptRead, genRead, dispatchRead, ne_eq,
      Except.ok.injEq] using stale
  · cases read

/-- The frame is answered `COMPLETE_REJECTED`, never `COMPLETE_ACK`, and changes nothing. -/
def Rejected (system : System) (fd : Int) (type : UInt32) (payload : Bytes) : Prop :=
  ∃ outputs reason, machine.step system (.frame fd type payload) = some (system, outputs) ∧
    Effect.send fd .completeRejected reason ∈ outputs ∧
    ∀ effect ∈ outputs, effect.sends .completeAck = false

section Frame

variable {fd : Int} {type : UInt32} {payload : Bytes}

theorem Rejected.read {system : System} (rejected : Rejected system fd type payload)
    (ready : system.threads[fd]? = some .receiving)
    (named : MsgType.ofCode? type = some .complete) :
    ∃ parsed, parseComplete payload = .ok parsed := by
  obtain ⟨outputs, reason, stepped, -⟩ := rejected
  cases read : parseComplete payload with
  | ok parsed => exact ⟨parsed, rfl⟩
  | error thrown =>
      simp [machine, step, ready, frameStep, named, switchFrame, handleComplete, read, bind,
        Except.bind] at stepped

theorem ProcessRun.rejected_of_stale (process : ProcessRun argv history final)
    (few : (issued history).length < 2 ^ 64) (ready : final.threads[fd]? = some .receiving)
    (named : MsgType.ofCode? type = some .complete)
    (stale : StalePayload history final.coord payload) {parsed : Option CompleteRequest}
    (read : parseComplete payload = .ok parsed) : Rejected final fd type payload := by
  have unchanged := insert_eq_self ready
  cases parsed with
  | none =>
      have answered := step_malformed_complete ready named read
      rw [unchanged] at answered
      exact ⟨_, ascii "malformed", answered, by simp, by simp [Effect.sends]⟩
  | some request =>
      have current := process.not_current_of_stale few (stale.stale read)
      obtain ⟨reason, locked⟩ := completeLocked_of_not_current current fd
      have answered := step_complete ready named read
      rw [locked, unchanged] at answered
      exact ⟨_, reason, answered, by simp [rejection], by simp [rejection, Effect.sends]⟩

end Frame

/-- The current numbers count the accepted submits and the epoch is fixed by the
command line. A stale completion is rejected and changes nothing exactly when
every column that is converted can be read: else the process is gone. -/
theorem stale_complete_rejected_iff (process : ProcessRun argv history final)
    (few : (issued history).length < 2 ^ 64) :
    (final.coord.curAttempt.toNat = (issued history).length ∧
      final.coord.curGen.toNat = (issued history).length ∧
      final.coord.curDispatch.toNat = (issued history).length) ∧
    (∀ coord, parseArgs {} argv = .ok coord → final.coord.epoch = coord.epoch) ∧
    ∀ (fd : Int) (type : UInt32) (payload : Bytes),
      final.threads[fd]? = some .receiving → MsgType.ofCode? type = some .complete →
      StalePayload history final.coord payload →
      (Rejected final fd type payload ↔ ∀ part ∈ numericParts type payload, NumericText part) := by
  refine ⟨?_, fun coord booted => process.epoch_eq booted, ?_⟩
  · have current := process.numbered.current
    rw [← length_issued] at current
    simp only [CoordState.authority, authorityAt, Authority.mk.injEq] at current
    simp only [current, UInt64.toNat_ofNat_of_lt' few, and_self]
  · intro fd type payload ready named stale
    rw [← parseComplete_returns_iff named]
    constructor
    · intro rejected
      exact rejected.read ready named
    · intro returns
      obtain ⟨parsed, read⟩ := returns
      exact process.rejected_of_stale few ready named stale read

theorem stale_complete_rejected_second_submit : ∃ history final,
    ProcessRun [] history final ∧ (issued history).length = 2 ∧
    final.coord.curDispatch.toNat = 2 ∧
    Rejected final 4 MsgType.complete.code (ascii "1|1|1|1|7|3|done") ∧
    ¬ Rejected final 4 MsgType.complete.code (ascii "1|1|1|x|7|3|done") := by
  obtain ⟨history, final, run, count, ready⟩ := machine.exists_run { coord := {} }
    [.accept 4, .accept 5, .frame 4 MsgType.register.code (ascii "w|7|3"),
      .frame 5 MsgType.submit.code (ascii "7|a"), .sendDispatch 5 true, .sendResponse 5,
      .frame 5 MsgType.submit.code (ascii "7|b")]
    (fun history final => issued history = [⟨1, 1, 1, 1⟩, ⟨1, 2, 2, 2⟩] ∧
      final.threads[(4 : Int)]? = some .receiving) (by decide +kernel)
  have process : ProcessRun [] history final := ⟨{}, rfl, run⟩
  have few : (issued history).length < 2 ^ 64 := by rw [count]; decide
  obtain ⟨⟨-, -, dispatch⟩, -, rejected⟩ := stale_complete_rejected_iff process few
  have earlier : (⟨1, 1, 1, 1⟩ : Authority) ∈ (issued history).dropLast := by simp [count]
  have parts : split (ascii "1|1|1|1|7|3|done") Byte.pipe = [ascii "1", ascii "1", ascii "1",
      ascii "1", ascii "7", ascii "3", ascii "done"] := by decide
  have lettered : split (ascii "1|1|1|x|7|3|done") Byte.pipe = [ascii "1", ascii "1", ascii "1",
      ascii "x", ascii "7", ascii "3", ascii "done"] := by decide
  have one : stoull (ascii "1") = .ok 1 := by decide
  have readable := rejected 4 MsgType.complete.code (ascii "1|1|1|1|7|3|done") ready
    (MsgType.ofCode?_code _) (by
      simp only [StalePayload, parts]
      exact .inr (.inl ⟨_, earlier, .inl one⟩))
  have unreadable := rejected 4 MsgType.complete.code (ascii "1|1|1|x|7|3|done") ready
    (MsgType.ofCode?_code _) (by
      simp only [StalePayload, lettered]
      exact .inr (.inl ⟨_, earlier, .inl one⟩))
  refine ⟨history, final, process, by simp [count], by rw [dispatch, count]; rfl,
    readable.mpr ?_, ?_⟩
  · have read : parseComplete (ascii "1|1|1|1|7|3|done") =
        .ok (some ⟨1, 1, 1, 1, 7, 3, ascii "done"⟩) := by decide
    exact (parseComplete_returns_iff (MsgType.ofCode?_code _)).mp ⟨_, read⟩
  · intro answered
    have thrown : parseComplete (ascii "1|1|1|x|7|3|done") = .error .invalidArgument := by decide
    obtain ⟨parsed, read⟩ :=
      (parseComplete_returns_iff (MsgType.ofCode?_code .complete)).mpr (unreadable.mp answered)
    rw [thrown] at read
    cases read

/-- Before any submit, a completion whose attempt column is no number: the exception
leaves the thread, so there is no answer. -/
theorem stale_complete_throws : ¬ ∀ (argv : List Bytes) (history : List Event)
    (final : System), ProcessRun argv history final → (issued history).length < 2 ^ 64 →
      ∀ (fd : Int) (type : UInt32) (payload : Bytes),
        final.threads[fd]? = some .receiving → MsgType.ofCode? type = some .complete →
        StalePayload history final.coord payload →
        ∃ next outputs reason, machine.step final (.frame fd type payload) = some (next, outputs) ∧
          Effect.send fd .completeRejected reason ∈ outputs := by
  intro answered
  obtain ⟨history, final, run, unissued, ready, thrown⟩ := machine.exists_run { coord := {} }
    [.accept 4]
    (fun history final => issued history = [] ∧ final.threads[(4 : Int)]? = some .receiving ∧
      machine.step final (.frame 4 MsgType.complete.code (ascii "99|x|1|1|7|3|d")) = none)
    (by decide +kernel)
  obtain ⟨next, outputs, reason, stepped, -⟩ := answered [] history final ⟨{}, rfl, run⟩
    (by simp [unissued]) 4 MsgType.complete.code (ascii "99|x|1|1|7|3|d") ready
    (MsgType.ofCode?_code _) (stalePayload_of_unissued unissued _)
  rw [thrown] at stepped
  cases stepped

end Process

end Coordinator

end ChaosLab
