import ChaosLab.BytesProperties
import ChaosLab.CoordinatorRunProperties
import ChaosLab.TextProperties

/-! Specifications of the coordinator's handlers, one for each. -/

set_option autoImplicit false

namespace ChaosLab

namespace Coordinator

section Complete

def Current (s : CoordState) (request : CompleteRequest) : Prop :=
  currentAuthority s request.epoch request.boot request.attempt request.gen
    request.dispatch = true

instance (s : CoordState) (request : CompleteRequest) : Decidable (Current s request) :=
  inferInstanceAs (Decidable (_ = true))

def commit (s : CoordState) (request : CompleteRequest) : CoordState :=
  { s with
    committed := s.committed.insert (signature request)
    sigResult := s.sigResult.insert (signature request) request.result }

def rejection (fd : Int) (reason : Bytes) : List Effect :=
  [.report (ascii "REJECTED") reason, .send fd .completeRejected reason]

def acceptance (s : CoordState) (result : Bytes) (fd : Int) : List Effect :=
  [.report (ascii "ACCEPTED") (acceptDetail s result), .send fd .completeAck (ascii "committed")]

variable {s : CoordState} {request other : CompleteRequest}

theorem current_iff : Current s request ↔
    s.hasSubmitted = true ∧ request.authority = s.authority ∧ request.boot = s.curBoot := by
  simp only [Current, currentAuthority, CompleteRequest.authority, CoordState.authority,
    Bool.and_eq_true, beq_iff_eq, Authority.mk.injEq]
  tauto

theorem ite_eq_nil_iff {condition : Prop} [Decidable condition] {text rest : Bytes}
    (nonempty : text ≠ []) :
    (if condition then text else rest) = [] ↔ ¬ condition ∧ rest = [] := by
  by_cases holds : condition <;> simp [holds, nonempty]

theorem authorityReject_eq_nil_iff : authorityReject s request = [] ↔ Current s request := by
  have epoch : ascii "stale_epoch" ≠ [] := by decide +kernel
  have boot : ascii "stale_boot" ≠ [] := by decide +kernel
  have attempt : ascii "stale_attempt" ≠ [] := by decide +kernel
  have generation : ascii "stale_generation" ≠ [] := by decide +kernel
  have dispatch : ascii "stale_dispatch" ≠ [] := by decide +kernel
  have authority : ascii "not_current_authority" ≠ [] := by decide +kernel
  simp only [authorityReject, ite_eq_nil_iff epoch, ite_eq_nil_iff boot, ite_eq_nil_iff attempt,
    ite_eq_nil_iff generation, ite_eq_nil_iff dispatch, ite_eq_nil_iff authority, not_not,
    Bool.not_eq_false, and_true]
  constructor
  · intro checks
    obtain ⟨-, -, -, -, -, passed⟩ := checks
    exact passed
  · intro current
    have fields := current_iff.mp current
    simp only [CompleteRequest.authority, CoordState.authority, Authority.mk.injEq] at fields
    obtain ⟨-, ⟨sameEpoch, sameAttempt, sameGen, sameDispatch⟩, sameBoot⟩ := fields
    exact ⟨sameEpoch, sameBoot, sameAttempt, sameGen, sameDispatch, current⟩

theorem completeLocked_of_not_current (stale : ¬ Current s request) (fd : Int) :
    ∃ reason, completeLocked s request fd = (s, rejection fd reason) := by
  have rejected : authorityReject s request ≠ [] := fun passed =>
    stale (authorityReject_eq_nil_iff.mp passed)
  exact ⟨authorityReject s request, by simp [completeLocked, rejected, rejection]⟩

theorem completeLocked_of_committed (current : Current s request)
    (committed : signature request ∈ s.committed)
    (stored : signature request ∈ s.sigResult) (fd : Int) :
    ∃ reason, completeLocked s request fd = (s, rejection fd reason) := by
  have passed := authorityReject_eq_nil_iff.mpr current
  have texts : ascii "conflicting_duplicate" ≠ [] ∧
      ascii "duplicate_current_completion" ≠ [] := by decide +kernel
  have kept : s.sigResult.insertIfNew (signature request) [] = s.sigResult := by
    refine Std.ExtTreeMap.ext_getElem? fun key => ?_
    rw [Std.ExtTreeMap.getElem?_insertIfNew]
    split
    · rename_i absent
      rw [Std.compare_eq_iff_eq] at absent
      exact absurd stored absent.2
    · rfl
  have named : (duplicateReject s request).1 = s ∧ (duplicateReject s request).2 ≠ [] := by
    simp only [duplicateReject, committed, if_true, kept, true_and]
    split
    · exact texts.1
    · exact texts.2
  refine ⟨(duplicateReject s request).2, ?_⟩
  simp [completeLocked, passed, named, rejection]

theorem completeLocked_of_fresh (current : Current s request)
    (fresh : signature request ∉ s.committed) (fd : Int) :
    completeLocked s request fd = (commit s request, acceptance s request.result fd) := by
  have passed := authorityReject_eq_nil_iff.mpr current
  simp [completeLocked, passed, duplicateReject, fresh, commit, acceptance]

theorem split_signature (request : CompleteRequest) :
    split (signature request) Byte.colon = [toString request.epoch, toString request.attempt,
      toString request.gen, toString request.dispatch, toString request.worker,
      toString request.boot] := by
  have absent : ∀ value, Byte.colon ∉ toString value := notMem_toString rfl
  refine split_eq_iff.mpr ⟨by simp, by simp [absent], ?_⟩
  simp [signature]

example : split (signature ⟨1, 2, 3, 4, 5, 6, ascii "R"⟩) Byte.colon =
    [ascii "1", ascii "2", ascii "3", ascii "4", ascii "5", ascii "6"] := by decide +kernel

theorem signature_inj (same : signature request = signature other) :
    request.authority = other.authority ∧ request.worker = other.worker ∧
      request.boot = other.boot := by
  have parts := congrArg (split · Byte.colon) same
  simp only [split_signature, List.cons.injEq, toString_injective.eq_iff] at parts
  simp [CompleteRequest.authority, parts]

theorem signature_eq_iff : signature request = signature other ↔
    request.authority = other.authority ∧ request.worker = other.worker ∧
      request.boot = other.boot := by
  refine ⟨signature_inj, ?_⟩
  intro fields
  obtain ⟨authority, worker, boot⟩ := fields
  simp only [CompleteRequest.authority, Authority.mk.injEq] at authority
  simp [signature, authority, worker, boot]

end Complete

section Exceptions

/-- The parts of a payload that its handler converts with `std::stoull`. -/
def numericParts (type : UInt32) (payload : Bytes) : List Bytes :=
  let parts := split payload Byte.pipe
  match MsgType.ofCode? type with
  | some .register => if parts.length = 3 then parts.drop 1 else []
  | some .submit => if parts.length = 2 then parts.take 1 else []
  | some .complete => if parts.length = 7 then parts.take 6 else []
  | _ => []

theorem bind_isOk_iff {ε α β : Type} {first : Except ε α} {next : α → Except ε β} :
    (∃ value, (first >>= next) = .ok value) ↔
      ∃ item, first = .ok item ∧ ∃ value, next item = .ok value := by
  constructor
  · intro returns
    obtain ⟨value, accepted⟩ := returns
    obtain ⟨item, read, continued⟩ := bind_ok accepted
    exact ⟨item, read, value, continued⟩
  · intro returns
    obtain ⟨item, read, value, continued⟩ := returns
    exact ⟨value, by rw [read]; exact continued⟩

theorem bind_isOk_iff_of_total {ε α β : Type} {first : Except ε α} {next : α → Except ε β}
    (total : ∀ item, ∃ value, next item = .ok value) :
    (∃ value, (first >>= next) = .ok value) ↔ ∃ item, first = .ok item := by
  simp [bind_isOk_iff, total]

variable {type : UInt32} {payload : Bytes}

theorem parseRegister_returns_iff (named : MsgType.ofCode? type = some .register) :
    (∃ parsed, parseRegister payload = .ok parsed) ↔
      ∀ part ∈ numericParts type payload, NumericText part := by
  simp only [parseRegister, numericParts, named]
  split
  · rename_i parts
    simp [parts, bind_isOk_iff, ← stoull_isOk_iff, pure, Except.pure]
  · rename_i other
    have count : (split payload Byte.pipe).length ≠ 3 := by
      intro three
      obtain ⟨name, id, boot, parts⟩ := List.length_eq_three.mp three
      exact other name id boot parts
    simp [count, pure, Except.pure]

theorem parseSubmit_returns_iff (named : MsgType.ofCode? type = some .submit) :
    (∃ parsed, parseSubmit payload = .ok parsed) ↔
      ∀ part ∈ numericParts type payload, NumericText part := by
  simp only [parseSubmit, numericParts, named]
  split
  · rename_i parts
    simp [parts, bind_isOk_iff, ← stoull_isOk_iff, pure, Except.pure]
  · rename_i other
    have count : (split payload Byte.pipe).length ≠ 2 := by
      intro two
      obtain ⟨target, work, parts⟩ := List.length_eq_two.mp two
      exact other target work parts
    simp [count, pure, Except.pure]

theorem parseComplete_returns_iff (named : MsgType.ofCode? type = some .complete) :
    (∃ parsed, parseComplete payload = .ok parsed) ↔
      ∀ part ∈ numericParts type payload, NumericText part := by
  simp only [parseComplete, numericParts, named]
  split
  · rename_i parts
    simp [parts, bind_isOk_iff, ← stoull_isOk_iff, pure, Except.pure]
  · rename_i other
    have count : (split payload Byte.pipe).length ≠ 7 := by
      intro seven
      match parts : split payload Byte.pipe, seven with
      | [epoch, attempt, gen, dispatch, worker, boot, result], _ =>
          exact other epoch attempt gen dispatch worker boot result parts
    simp [count, pure, Except.pure]

/-- A frame is handled without an exception exactly when every part that its
handler converts starts with a number that fits. -/
theorem switchFrame_returns_iff (type : UInt32) (payload : Bytes) (fd : Int) (sent : Bool)
    (s : CoordState) :
    (∃ result, switchFrame type payload fd sent s = .ok result) ↔
      ∀ part ∈ numericParts type payload, NumericText part := by
  cases named : MsgType.ofCode? type with
  | none => simp [switchFrame, numericParts, named]
  | some message =>
      cases message with
      | register =>
          rw [← parseRegister_returns_iff named]
          simp only [switchFrame, named, handleRegister]
          refine bind_isOk_iff_of_total ?_
          intro registration
          cases registration with
          | none => exact ⟨_, rfl⟩
          | some fields => exact ⟨_, rfl⟩
      | submit =>
          rw [← parseSubmit_returns_iff named]
          simp only [switchFrame, named, handleSubmit]
          rw [bind_isOk_iff_of_total, submitLocked, bind_isOk_iff_of_total]
          · intro request
            cases request with
            | none => exact ⟨_, rfl⟩
            | some fields =>
                cases live : liveWorker? s fields.1 <;> simp [live, pure, Except.pure]
          · intro result
            obtain ⟨next, effects, submission⟩ := result
            cases submission with
            | none => exact ⟨_, rfl⟩
            | some submission => exact ⟨_, rfl⟩
      | complete =>
          rw [← parseComplete_returns_iff named]
          simp only [switchFrame, named, handleComplete]
          refine bind_isOk_iff_of_total ?_
          intro completion
          cases completion with
          | none => exact ⟨_, rfl⟩
          | some request => exact ⟨_, rfl⟩
      | getState | workStarted | ping | shutdown | registered | submitResponse | dispatch
      | completeAck | completeRejected | epochNew | pong | stale | state =>
          simp [switchFrame, numericParts, named]

/-- `REGISTER` with `w|x|1`: the worker id is not a number. -/
theorem switchFrame_throws_on_text_id : ¬ ∀ (argv : List Bytes) (history : List Event)
    (final : System), ProcessRun argv history final →
      ∀ (type : UInt32) (payload : Bytes) (fd : Int) (sent : Bool),
        ∃ result, switchFrame type payload fd sent final.coord = .ok result := by
  intro returns
  obtain ⟨result, returned⟩ := returns [] [] { coord := {} } ⟨{}, rfl, .nil⟩
    MsgType.register.code (ascii "w|x|1") 4 true
  have thrown : switchFrame MsgType.register.code (ascii "w|x|1") 4 true {} =
      .error .invalidArgument := by decide +kernel
  rw [thrown] at returned
  cases returned

end Exceptions

end Coordinator

end ChaosLab
