import ChaosLab.CoordinatorCommit
import ChaosLab.CoordinatorReplies
import ChaosLab.Output

/-! What the lines on the coordinator's standard output tell the campaign driver. The numbers
of a submit stand in no line but that of its commits and in text that others dictate: the
payload of `WORK_STARTED` and the result of a completion. -/

set_option autoImplicit false

namespace ChaosLab

namespace Coordinator

open Foundation

section Text

variable {text : Bytes} (windows : Bool)

theorem cString_of_notMem (absent : 0 ∉ text) : cString text = text := by
  rw [cString, List.takeWhile_eq_self_iff]
  intro byte member
  simpa using fun same : byte = 0 => absent (same ▸ member)

theorem cString_append (absent : 0 ∉ text) (rest : Bytes) :
    cString (text ++ rest) = text ++ cString rest := by
  rw [cString, List.takeWhile_append_of_pos, cString]
  intro byte member
  simpa using fun same : byte = 0 => absent (same ▸ member)

theorem textMode_append (rest : Bytes) :
    textMode windows (text ++ rest) = textMode windows text ++ textMode windows rest :=
  List.flatMap_append

theorem textMode_of_notMem (absent : Byte.newline ∉ text) : textMode windows text = text := by
  induction text with
  | nil => rfl
  | cons byte text ih =>
      rw [List.mem_cons, not_or] at absent
      have other : byte ≠ Byte.newline := Ne.symm absent.1
      rw [textMode, List.flatMap_cons, if_neg other, List.singleton_append]
      exact congrArg _ (ih absent.2)

@[simp] theorem textMode_newline : textMode windows [Byte.newline] = lineEnding windows := by
  simp [textMode]

theorem notMem_textMode {byte : UInt8} (ordinary : byte ∉ lineEnding windows)
    (absent : byte ∉ text) : byte ∉ textMode windows text := by
  intro member
  obtain ⟨source, inside, written⟩ := List.mem_flatMap.mp member
  split at written
  · exact ordinary written
  · rw [List.mem_singleton] at written
    exact absent (written ▸ inside)

theorem lineEnding_ne_nil : lineEnding windows ≠ [] := by
  cases windows <;> simp [lineEnding]

theorem semicolon_notMem_lineEnding : Byte.semicolon ∉ lineEnding windows := by
  cases windows <;> decide

/-- What a text that others dictate looks like in a line. -/
def shown (text : Bytes) : Bytes := textMode windows (cString text)

def line (tag detail : Bytes) : Bytes := textMode windows (tag ++ [Byte.pipe] ++ cString detail)

theorem report_eq (tag detail : Bytes) :
    report windows tag detail = line windows tag detail ++ lineEnding windows := by
  rw [report, textMode_append, textMode_newline, line]

theorem line_eq {tag : Bytes} (plain : Byte.newline ∉ tag) (detail : Bytes) :
    line windows tag detail = tag ++ Byte.pipe :: shown windows detail := by
  have unbroken : Byte.newline ∉ tag ++ [Byte.pipe] := by
    have other : Byte.newline ≠ Byte.pipe := by decide
    simp [plain, other]
  rw [line, textMode_append, textMode_of_notMem windows unbroken, shown, List.append_assoc,
    List.singleton_append]

theorem shown_of_plain (ended : 0 ∉ text) (plain : Byte.newline ∉ text) :
    shown windows text = text := by
  rw [shown, cString_of_notMem ended, textMode_of_notMem windows plain]

theorem shown_append (ended : 0 ∉ text) (plain : Byte.newline ∉ text) (rest : Bytes) :
    shown windows (text ++ rest) = text ++ shown windows rest := by
  rw [shown, cString_append ended, textMode_append, textMode_of_notMem windows plain, shown]

end Text

section Lines

def announced (outputs : List Effect) : List (Bytes × Bytes) :=
  outputs.filterMap fun
    | .report tag detail => some (tag, detail)
    | .send _ _ _ | .close _ => none

def lines (windows : Bool) (outputs : List Effect) : List Bytes :=
  (announced outputs).map fun reported => line windows reported.1 reported.2

theorem printed_outputs (windows : Bool) (outputs : List Effect) :
    outputs.flatMap (printed windows) =
      (lines windows outputs).flatMap (· ++ lineEnding windows) := by
  induction outputs with
  | nil => rfl
  | cons effect outputs ih =>
      rw [List.flatMap_cons, ih]
      cases effect with
      | report tag detail => exact congrArg (· ++ _) (report_eq windows tag detail)
      | send | close => rfl

theorem stdout_eq (windows : Bool) (port : UInt16) (history : List Event) :
    stdout windows port history =
      (textMode windows (ascii "LISTEN|port=" ++ decimal port.toNat) ::
        history.flatMap fun event => lines windows event.outputs).flatMap
          (· ++ lineEnding windows) := by
  rw [List.flatMap_cons, List.flatMap_assoc, stdout, listening, textMode_append, textMode_newline]
  simp only [printed_outputs]

/-- A line without the numbers of a submit, a line with a payload that a connection chose, and
the line of a commit. -/
inductive Announced (s : CoordState) : Option CompleteRequest → List (Bytes × Bytes) → Prop where
  | silent : Announced s none []
  | fixed {tag detail : Bytes} (plainTag : Byte.newline ∉ tag) (tagUnmarked : Byte.semicolon ∉ tag)
      (detailUnmarked : Byte.semicolon ∉ detail) : Announced s none [(tag, detail)]
  | boot (id boot : UInt64) : Announced s none [(ascii "BOOT", ascii "worker=" ++ toString id ++
      ascii ";boot=" ++ toString boot ++ ascii ";fresh=1")]
  | dead (id boot : UInt64) : Announced s none [(ascii "DEAD", ascii "worker=" ++ toString id ++
      ascii ";boot=" ++ toString boot)]
  | started (payload : Bytes) : Announced s none [(ascii "WORK_STARTED", payload)]
  | accepted {request : CompleteRequest} (authority : request.authority = s.authority) :
      Announced s (some request) [(ascii "ACCEPTED", acceptDetail s request.result)]

theorem semicolon_notMem_authorityReject (s : CoordState) (request : CompleteRequest) :
    Byte.semicolon ∉ authorityReject s request := by
  unfold authorityReject
  split_ifs <;> decide

theorem semicolon_notMem_duplicateReject (s : CoordState) (request : CompleteRequest) :
    Byte.semicolon ∉ (duplicateReject s request).2 := by
  have texts : Byte.semicolon ∉ ascii "conflicting_duplicate" ∧
      Byte.semicolon ∉ ascii "duplicate_current_completion" := by decide
  unfold duplicateReject
  split_ifs
  · exact texts.1
  · exact texts.2
  · exact List.not_mem_nil

theorem semicolon_notMem_rejection {s : CoordState} {request : CompleteRequest} {fd : Int}
    {reason : Bytes} (locked : (completeLocked s request fd).2 = rejection fd reason) :
    Byte.semicolon ∉ reason := by
  have other : ascii "ACCEPTED" ≠ ascii "REJECTED" := by decide
  have unmarked : Byte.semicolon ∉ (if authorityReject s request = [] then
      duplicateReject s request else (s, authorityReject s request)).2 := by
    split
    · exact semicolon_notMem_duplicateReject s request
    · exact semicolon_notMem_authorityReject s request
  unfold completeLocked at locked
  generalize (if authorityReject s request = [] then duplicateReject s request
    else (s, authorityReject s request)) = checked at locked unmarked
  dsimp only at locked
  split at locked
  · simp only [rejection, List.cons.injEq, Effect.report.injEq, true_and] at locked
    exact locked.1 ▸ unmarked
  · simp [rejection, other] at locked

theorem announced_rejection {s : CoordState} {reason : Bytes} (fd : Int)
    (unmarked : Byte.semicolon ∉ reason) : Announced s none (announced (rejection fd reason)) :=
  .fixed (by decide) (by decide) unmarked

theorem announced_register (s : CoordState) (id boot : UInt64) (fd : Int) :
    Announced s none (announced (registerEffects s id boot fd)) := by
  unfold registerEffects
  dsimp only
  split
  · exact .boot id boot
  · exact .silent

theorem announced_closeConnection (fd : Int) (s : CoordState) :
    Announced s none (announced (closeConnection fd s).2) := by
  unfold closeConnection
  split
  · exact .silent
  · split
    · exact .silent
    · exact .dead _ _

theorem announced_sendResponse (s : CoordState) (fd : Int) (sent : Bool) :
    Announced s none (announced (sendResponse s fd sent)) := by
  cases sent with
  | true => exact .silent
  | false => exact .fixed (by decide) (by decide) (by decide)

theorem announced_complete {s : CoordState} (logged : Logged s) (request : CompleteRequest)
    (fd : Int) :
    Announced s
      (if (completeLocked s request fd).2.any (Effect.sends .completeAck) then some request
        else none)
      (announced (completeLocked s request fd).2) := by
  rcases completeLocked_cases logged request fd with
    ⟨current, fresh, locked⟩ | ⟨-, reason, locked⟩
  · rw [locked]
    exact .accepted (current_iff.mp current).2.1
  · have unmarked := semicolon_notMem_rejection (congrArg Prod.snd locked)
    rw [locked]
    exact announced_rejection fd unmarked

/-- A frame, stopped after the locked section of `handle_submit`, that is no completion. -/
theorem announced_frameStep {s coord : CoordState} {type : UInt32} {payload : Bytes} {fd : Int}
    {outputs : List Effect} {phase : ThreadPhase}
    (returned : frameStep type payload fd s = .ok (coord, outputs, phase))
    (incomplete : MsgType.ofCode? type ≠ some .complete) :
    Announced s none (announced outputs) := by
  cases named : MsgType.ofCode? type with
  | none =>
      simp only [frameStep, switchFrame, named] at returned
      cases returned
      exact .silent
  | some message =>
      cases message with
      | complete => exact absurd named incomplete
      | submit =>
          simp only [frameStep, named] at returned
          obtain ⟨⟨next, effects, submission⟩, locked, returned⟩ := bind_ok returned
          rcases submitLocked_spec locked with
            ⟨rfl, -, reason, rfl⟩ | ⟨target, work, worker, -, -, -, rfl, rfl⟩
          · cases returned
            exact .silent
          · cases returned
            exact .silent
      | register =>
          simp only [frameStep, switchFrame, named] at returned
          obtain ⟨⟨next, effects⟩, handled, returned⟩ := bind_ok returned
          cases returned
          obtain ⟨parsed, -, handled⟩ := bind_ok handled
          cases parsed with
          | none =>
              cases handled
              exact .silent
          | some parsed =>
              cases handled
              exact announced_register s _ _ fd
      | workStarted =>
          simp only [frameStep, switchFrame, named] at returned
          cases returned
          exact .started payload
      | getState | ping | shutdown | registered | submitResponse | dispatch | completeAck
      | completeRejected | epochNew | pong | stale | state =>
          simp only [frameStep, switchFrame, named] at returned
          cases returned
          exact .silent

theorem announced_frame {system after : System} {type : UInt32} {payload : Bytes} {fd : Int}
    {outputs : List Effect} (logged : Logged system.coord)
    (stepped : machine.step system (.frame fd type payload) = some (after, outputs)) :
    Announced system.coord (acknowledged? ⟨system, .frame fd type payload, outputs, after⟩)
      (announced outputs) := by
  have whole := stepped
  change step system (.frame fd type payload) = some (after, outputs) at stepped
  simp only [step] at stepped
  split at stepped
  · rename_i ready
    split at stepped
    · rename_i coord effects phase returned
      cases stepped
      by_cases named : MsgType.ofCode? type = some .complete
      · have handled : handleComplete payload fd system.coord = .ok (coord, outputs) := by
          simp only [frameStep, switchFrame, named] at returned
          obtain ⟨⟨next, effects⟩, handled, returned⟩ := bind_ok returned
          cases returned
          exact handled
        obtain ⟨parsed, read, handled⟩ := bind_ok handled
        cases parsed with
        | none =>
            cases handled
            rw [acknowledged?_of_completion_none (by simp [completion?, named, read])]
            exact .fixed (by decide) (by decide) (by decide)
        | some request =>
            have locked : completeLocked system.coord request fd = (coord, outputs) :=
              Except.ok.inj handled
            have lines := announced_complete logged request fd
            rw [locked] at lines
            simpa only [acknowledged?, completion?, named, read, if_true] using lines
      · rw [acknowledged?_of_completion_none (by simp [completion?, named])]
        exact announced_frameStep returned named
    · cases stepped
  · cases stepped

theorem announced_of_step {system after : System} {action : Action} {outputs : List Effect}
    (logged : Logged system.coord)
    (stepped : machine.step system action = some (after, outputs)) :
    Announced system.coord (acknowledged? ⟨system, action, outputs, after⟩)
      (announced outputs) := by
  cases action with
  | frame fd type payload => exact announced_frame logged stepped
  | accept fd =>
      cases stepped_of_step stepped with
      | accept => exact .silent
  | sendDispatch fd sent =>
      cases stepped_of_step stepped with
      | sendDispatch => exact .silent
  | sendResponse fd =>
      rw [acknowledged?_of_completion_none rfl]
      cases stepped_of_step stepped with
      | sendResponse => exact announced_sendResponse _ _ _
  | disconnect fd =>
      rw [acknowledged?_of_completion_none rfl]
      cases stepped_of_step stepped with
      | disconnect => exact announced_closeConnection _ _

end Lines

section Marker

open Controller

variable {attempt gen : UInt64} {text field : Bytes}

theorem marker_eq (attempt gen : UInt64) :
    marker attempt gen = ascii "attempt" ++ Byte.equals ::
      (toString attempt ++ Byte.semicolon :: (ascii "gen=" ++ toString gen)) := by
  have texts : ascii "attempt=" = ascii "attempt" ++ [Byte.equals] ∧
      ascii ";gen=" = Byte.semicolon :: ascii "gen=" := by decide
  simp [marker, texts]

theorem marker_ne_nil : marker attempt gen ≠ [] := by
  rw [marker_eq]
  simp

theorem marker_unfound (unmarked : Byte.semicolon ∉ text) :
    ¬ marker attempt gen <:+: text := by
  intro inside
  refine unmarked (inside.subset ?_)
  rw [marker_eq]
  simp

theorem lineEnding_apart (windows : Bool) :
    ∀ symbol ∈ lineEnding windows, symbol ∉ Byte.semicolon :: marker attempt gen := by
  have ends : ∀ symbol ∈ lineEnding windows,
      isdigit symbol = false ∧ symbol ∉ ascii ";attempt=" ∧ symbol ∉ ascii ";gen=" := by
    cases windows <;> decide +kernel
  have texts : Byte.semicolon :: ascii "attempt=" = ascii ";attempt=" := by decide
  intro symbol member inside
  obtain ⟨nondigit, first, second⟩ := ends symbol member
  have digits := notMem_toString nondigit
  rw [marker, List.append_assoc, List.append_assoc, ← List.cons_append, texts] at inside
  simp [first, second, digits] at inside

/-- A field that does not end with the name is skipped. -/
theorem marker_infix_field_iff (clean : Byte.equals ∉ field)
    (other : ¬ ascii "attempt" <:+ field) :
    marker attempt gen <:+: field ++ Byte.equals :: text ↔ marker attempt gen <:+: text := by
  rw [marker_eq, infix_marked_iff (by decide) clean]
  simp [other]

theorem marker_infix_named_iff {tail : Bytes} (value : UInt64) (clean : Byte.equals ∉ tail)
    (longer : ¬ tail <:+ ascii "attempt") (shorter : ¬ ascii "attempt" <:+ tail) :
    marker attempt gen <:+: toString value ++ tail ++ Byte.equals :: text ↔
      marker attempt gen <:+: text := by
  refine marker_infix_field_iff ?_ (not_suffix_append longer shorter _)
  simp [clean, notMem_toString (show isdigit Byte.equals = false from rfl)]

theorem notMem_numbered {byte : UInt8} (nondigit : isdigit byte = false) {start tail : Bytes}
    (startClean : byte ∉ start) (tailClean : byte ∉ tail) (value : UInt64) :
    byte ∉ start ++ toString value ++ tail := by
  simp [startClean, tailClean, notMem_toString nondigit]

/-- The detail of the line `ACCEPTED` in front of the result. -/
def acceptedNumbers (s : CoordState) : Bytes :=
  ascii "epoch=" ++ toString s.epoch ++ ascii ";attempt=" ++ toString s.curAttempt ++
    ascii ";gen=" ++ toString s.curGen ++ ascii ";dispatch=" ++ toString s.curDispatch ++
    ascii ";result="

theorem line_accepted (windows : Bool) (s : CoordState) (result : Bytes) :
    line windows (ascii "ACCEPTED") (acceptDetail s result) =
      ascii "ACCEPTED" ++ Byte.pipe :: (acceptedNumbers s ++ shown windows result) := by
  have texts : ∀ byte ∈ [0, Byte.newline], isdigit byte = false ∧ byte ∉ ascii "epoch=" ∧
      byte ∉ ascii ";attempt=" ∧ byte ∉ ascii ";gen=" ∧ byte ∉ ascii ";dispatch=" ∧
      byte ∉ ascii ";result=" := by decide +kernel
  have absent : ∀ byte ∈ [0, Byte.newline], byte ∉ acceptedNumbers s := by
    intro byte member
    obtain ⟨nondigit, epoch, attempt, gen, dispatch, result⟩ := texts byte member
    have digits := notMem_toString nondigit
    simp [acceptedNumbers, digits, epoch, attempt, gen, dispatch, result]
  rw [line_eq windows (by decide), ← shown_append windows (absent _ (by simp))
    (absent _ (by simp))]
  rfl

theorem acceptedNumbers_eq (s : CoordState) : acceptedNumbers s =
    ascii "epoch" ++ Byte.equals :: (toString s.epoch ++ ascii ";attempt" ++ Byte.equals ::
      (toString s.curAttempt ++ ascii ";gen" ++ Byte.equals ::
        (toString s.curGen ++ ascii ";dispatch" ++ Byte.equals ::
          (toString s.curDispatch ++ ascii ";result" ++ [Byte.equals])))) := by
  have texts : ascii "epoch=" = ascii "epoch" ++ [Byte.equals] ∧
      ascii ";attempt=" = ascii ";attempt" ++ [Byte.equals] ∧
      ascii ";gen=" = ascii ";gen" ++ [Byte.equals] ∧
      ascii ";dispatch=" = ascii ";dispatch" ++ [Byte.equals] ∧
      ascii ";result=" = ascii ";result" ++ [Byte.equals] := by decide
  simp [acceptedNumbers, texts]

theorem marker_infix_accepted_iff (windows : Bool) {s : CoordState}
    (paired : s.curAttempt = attempt → s.curGen = gen) (result : Bytes) :
    marker attempt gen <:+: line windows (ascii "ACCEPTED") (acceptDetail s result) ↔
      s.curAttempt = attempt ∨ marker attempt gen <:+: shown windows result := by
  have start : ascii "ACCEPTED" ++ Byte.pipe :: ascii "epoch" = ascii "ACCEPTED|epoch" := by
    decide
  have shape : line windows (ascii "ACCEPTED") (acceptDetail s result) =
      ascii "ACCEPTED|epoch" ++ Byte.equals ::
        (toString s.epoch ++ ascii ";attempt" ++ Byte.equals ::
          (toString s.curAttempt ++ ascii ";gen" ++ Byte.equals ::
            (toString s.curGen ++ ascii ";dispatch" ++ Byte.equals ::
              (toString s.curDispatch ++ ascii ";result" ++ Byte.equals ::
                shown windows result)))) := by
    rw [line_accepted, acceptedNumbers_eq, ← start]
    simp
  -- Only the field of the attempt ends with the name; a value follows it to the next mark.
  have numbers (rest : Bytes) :
      toString attempt ++ Byte.semicolon :: (ascii "gen=" ++ toString gen) <+:
        toString s.curAttempt ++ ascii ";gen" ++ Byte.equals :: (toString s.curGen ++ rest) ↔
      s.curAttempt = attempt := by
    have texts : ascii ";gen" = Byte.semicolon :: ascii "gen" ∧
        ascii "gen=" = ascii "gen" ++ [Byte.equals] := by decide
    have absent := notMem_toString (show isdigit Byte.semicolon = false from rfl)
    rw [texts.1, List.append_assoc, List.cons_append,
      prefix_marked_iff (absent attempt) (absent s.curAttempt), toString_injective.eq_iff, texts.2]
    constructor
    · exact fun held => held.1.symm
    · rintro rfl
      rw [← paired rfl]
      simp
  rw [shape, marker_infix_field_iff (by decide) (by decide), marker_eq,
    infix_marked_iff (by decide) (by
      rw [← List.nil_append (toString s.epoch)]
      exact notMem_numbered rfl (by simp) (by decide) _), ← marker_eq,
    List.append_assoc (toString s.curGen), numbers,
    ← List.append_assoc (toString s.curGen),
    marker_infix_named_iff _ (by decide) (by decide) (by decide),
    marker_infix_named_iff _ (by decide) (by decide) (by decide),
    marker_infix_named_iff _ (by decide) (by decide) (by decide)]
  have named : ascii "attempt" <:+ toString s.epoch ++ ascii ";attempt" :=
    (show ascii "attempt" <:+ ascii ";attempt" by decide).trans (List.suffix_append _ _)
  simp [named]

/-- In the lines of a worker only what follows its boot can hold the numbers. -/
theorem marker_infix_worker_iff (windows : Bool) {tag : Bytes} (plain : Byte.newline ∉ tag)
    (clean : Byte.equals ∉ tag ++ Byte.pipe :: ascii "worker")
    (other : ¬ ascii "attempt" <:+ tag ++ Byte.pipe :: ascii "worker") (id : UInt64)
    (rest : Bytes) :
    marker attempt gen <:+: line windows tag (ascii "worker=" ++ toString id ++ ascii ";boot=" ++
      rest) ↔ marker attempt gen <:+: shown windows rest := by
  have texts : ascii "worker=" = ascii "worker" ++ [Byte.equals] ∧
      ascii ";boot=" = ascii ";boot" ++ [Byte.equals] := by decide
  have shape : tag ++ Byte.pipe :: (ascii "worker=" ++ toString id ++ ascii ";boot=" ++
      shown windows rest) = tag ++ Byte.pipe :: ascii "worker" ++ Byte.equals ::
        (toString id ++ ascii ";boot" ++ Byte.equals :: shown windows rest) := by
    simp [texts]
  rw [line_eq windows plain, shown_append windows (notMem_numbered rfl (by decide) (by decide) id)
      (notMem_numbered rfl (by decide) (by decide) id), shape,
    marker_infix_field_iff clean other,
    marker_infix_named_iff id (by decide) (by decide) (by decide)]

theorem shown_toString (windows : Bool) (value : UInt64) :
    shown windows (toString value) = toString value :=
  shown_of_plain windows (notMem_toString rfl value) (notMem_toString rfl value)

theorem marker_unfound_dead (windows : Bool) (id boot : UInt64) :
    ¬ marker attempt gen <:+: line windows (ascii "DEAD") (ascii "worker=" ++ toString id ++
      ascii ";boot=" ++ toString boot) := by
  rw [marker_infix_worker_iff windows (by decide) (by decide) (by decide), shown_toString]
  exact marker_unfound (notMem_toString rfl boot)

theorem marker_unfound_boot (windows : Bool) (id boot : UInt64) :
    ¬ marker attempt gen <:+: line windows (ascii "BOOT") (ascii "worker=" ++ toString id ++
      ascii ";boot=" ++ toString boot ++ ascii ";fresh=1") := by
  have texts : ascii ";fresh=1" = ascii ";fresh" ++ Byte.equals :: ascii "1" := by decide
  have tail : shown windows (ascii ";fresh=1") = ascii ";fresh=1" :=
    shown_of_plain windows (by decide) (by decide)
  rw [List.append_assoc (_ ++ ascii ";boot="),
    marker_infix_worker_iff windows (by decide) (by decide) (by decide),
    shown_append windows (notMem_toString rfl boot) (notMem_toString rfl boot), tail, texts,
    ← List.append_assoc, marker_infix_named_iff boot (by decide) (by decide) (by decide)]
  exact marker_unfound (by decide)

theorem pipe_notMem_marker : Byte.pipe ∉ marker attempt gen := by
  have texts : Byte.pipe ∉ ascii "attempt=" ∧ Byte.pipe ∉ ascii ";gen=" := by decide
  simp [marker, texts, notMem_toString (show isdigit Byte.pipe = false from rfl)]

theorem semicolon_notMem_shown (windows : Bool) (unmarked : Byte.semicolon ∉ text) :
    Byte.semicolon ∉ shown windows text :=
  notMem_textMode windows (semicolon_notMem_lineEnding windows) fun member =>
    unmarked ((List.takeWhile_sublist _).subset member)

/-- The payloads of `WORK_STARTED` among the lines. -/
def startedPayloads (reports : List (Bytes × Bytes)) : List Bytes :=
  reports.filterMap fun reported =>
    if reported.1 = ascii "WORK_STARTED" then some reported.2 else none

theorem Announced.marker_infix_iff {s : CoordState} {acked : Option CompleteRequest}
    {reports : List (Bytes × Bytes)} (announced : Announced s acked reports)
    {authority : Authority} (paired : s.curAttempt = authority.attempt → s.authority = authority)
    (windows : Bool) :
    (∃ reported ∈ reports, marker authority.attempt authority.gen <:+:
      line windows reported.1 reported.2) ↔
    (∃ request, acked = some request ∧ request.authority = authority) ∨
      ∃ text ∈ startedPayloads reports ++ (acked.map (·.result)).toList,
        marker authority.attempt authority.gen <:+: shown windows text := by
  have boots : ascii "BOOT" ≠ ascii "WORK_STARTED" ∧ ascii "DEAD" ≠ ascii "WORK_STARTED" ∧
      ascii "ACCEPTED" ≠ ascii "WORK_STARTED" := by decide
  cases announced with
  | silent => simp [startedPayloads]
  | @fixed tag detail plainTag tagUnmarked detailUnmarked =>
      have absent : ¬ marker authority.attempt authority.gen <:+: shown windows detail :=
        marker_unfound (semicolon_notMem_shown windows detailUnmarked)
      have unfound : ¬ marker authority.attempt authority.gen <:+: line windows tag detail := by
        rw [line_eq windows plainTag, infix_append_cons_iff pipe_notMem_marker, not_or]
        exact ⟨marker_unfound tagUnmarked, absent⟩
      by_cases named : tag = ascii "WORK_STARTED"
      · rw [named] at unfound
        simp [startedPayloads, named, absent, unfound]
      · simp [startedPayloads, named, unfound]
  | boot id boot =>
      have unfound := @marker_unfound_boot authority.attempt authority.gen windows id boot
      simpa [startedPayloads, boots] using unfound
  | dead id boot =>
      have unfound := @marker_unfound_dead authority.attempt authority.gen windows id boot
      simpa [startedPayloads, boots] using unfound
  | started payload =>
      have start : ¬ marker authority.attempt authority.gen <:+: ascii "WORK_STARTED" :=
        marker_unfound (by decide)
      simp [startedPayloads, line_eq windows (show Byte.newline ∉ ascii "WORK_STARTED" by decide),
        infix_append_cons_iff pipe_notMem_marker, start]
  | @accepted request same =>
      have gens (attempts : s.curAttempt = authority.attempt) : s.curGen = authority.gen :=
        congrArg Authority.gen (paired attempts)
      have known : s.curAttempt = authority.attempt ↔ request.authority = authority :=
        ⟨fun attempts => same.trans (paired attempts),
          fun named => congrArg Authority.attempt (same.symm.trans named)⟩
      simp [startedPayloads, boots, marker_infix_accepted_iff windows gens, known]

end Marker

section Waiting

open Controller

theorem waitStdout_iff {needle acc : Bytes} {reads : List Bytes} :
    (waitStdout needle acc reads).1 = true ↔ reads ≠ [] ∧ needle <:+: acc ++ reads.flatten := by
  induction reads generalizing acc with
  | nil => simp [waitStdout]
  | cons piece reads ih =>
      rw [waitStdout, List.flatten_cons, ← List.append_assoc]
      by_cases now : needle <:+: acc ++ piece
      · have inside : needle <:+: acc ++ piece ++ reads.flatten :=
          List.infix_append_of_infix_left now
        simpa [now] using inside
      · rw [if_neg now, ih]
        cases reads with
        | nil => simpa using now
        | cons => simp

variable {argv : List Bytes} {history : List Event} {final : System} {authority : Authority}

/-- The texts in the lines of a step that others dictate. -/
def echoed (event : Event) : List Bytes :=
  startedPayloads (announced event.outputs) ++ ((acknowledged? event).map (·.result)).toList

theorem ProcessRun.paired (process : ProcessRun argv history final)
    (known : authority ∈ issued history) {earlier : List Event} {state : System}
    (before : ProcessRun argv earlier state) (same : state.coord.curAttempt = authority.attempt) :
    state.coord.authority = authority := by
  obtain ⟨coord, booted, run⟩ := process
  have epoch : state.coord.epoch = final.coord.epoch :=
    (before.epoch_eq booted).trans (ProcessRun.epoch_eq ⟨coord, booted, run⟩ booted).symm
  have process : ProcessRun argv history final := ⟨coord, booted, run⟩
  rw [process.issued_eq] at known
  obtain ⟨count, -, rfl⟩ := List.mem_map.mp known
  have current := before.numbered.current
  rw [current, ← epoch]
  have attempt := congrArg Authority.attempt current
  simp only [CoordState.authority, authorityAt] at attempt same ⊢
  rw [same] at attempt
  rw [attempt]

/-- The numbers of a submit are on the standard output exactly when a completion with them is
acknowledged, or when someone else has them written there. -/
theorem ProcessRun.marker_infix_iff (process : ProcessRun argv history final)
    (known : authority ∈ issued history) (windows : Bool) (port : UInt16) :
    marker authority.attempt authority.gen <:+: stdout windows port history ↔
      (∃ request ∈ acknowledged history, request.authority = authority) ∨
        ∃ text ∈ history.flatMap echoed,
          marker authority.attempt authority.gen <:+: shown windows text := by
  have start : ¬ marker authority.attempt authority.gen <:+:
      textMode windows (ascii "LISTEN|port=" ++ decimal port.toNat) := by
    refine marker_unfound (notMem_textMode windows (semicolon_notMem_lineEnding windows) ?_)
    have literal : Byte.semicolon ∉ ascii "LISTEN|port=" := by decide
    have digits : Byte.semicolon ∉ decimal port.toNat := fun member =>
      absurd (isdigit_of_mem_decimal member) (by decide)
    simp [literal, digits]
  have step : ∀ event ∈ history,
      (∃ reported ∈ announced event.outputs, marker authority.attempt authority.gen <:+:
        line windows reported.1 reported.2) ↔
      (∃ request, acknowledged? event = some request ∧ request.authority = authority) ∨
        ∃ text ∈ echoed event,
          marker authority.attempt authority.gen <:+: shown windows text := by
    intro event member
    obtain ⟨earlier, later, whole⟩ := List.append_of_mem member
    obtain ⟨coord, booted, run⟩ := process
    rw [whole] at run
    obtain ⟨before, stepped, -⟩ := run.at_split
    have reached : ProcessRun argv earlier event.before := ⟨coord, booted, before⟩
    have all : ProcessRun argv history final := ⟨coord, booted, by rwa [whole]⟩
    exact (announced_of_step reached.logged stepped).marker_infix_iff
      (fun same => all.paired known reached same) windows
  rw [stdout_eq, infix_flatMap_lines_iff marker_ne_nil (lineEnding_ne_nil windows)
    fun symbol member inside => lineEnding_apart windows symbol member (.tail _ inside)]
  constructor
  · rintro ⟨text, member, inside⟩
    rcases List.mem_cons.mp member with rfl | member
    · exact absurd inside start
    · obtain ⟨event, there, written⟩ := List.mem_flatMap.mp member
      obtain ⟨reported, here, rfl⟩ := List.mem_map.mp written
      rcases (step event there).mp ⟨reported, here, inside⟩ with
        ⟨request, acked, named⟩ | ⟨text, dictated, found⟩
      · exact .inl ⟨request, List.mem_filterMap.mpr ⟨event, there, acked⟩, named⟩
      · exact .inr ⟨text, List.mem_flatMap.mpr ⟨event, there, dictated⟩, found⟩
  · intro either
    have reported : ∃ event ∈ history, ∃ reported ∈ announced event.outputs,
        marker authority.attempt authority.gen <:+: line windows reported.1 reported.2 := by
      rcases either with ⟨request, member, named⟩ | ⟨text, member, found⟩
      · obtain ⟨event, there, acked⟩ := List.mem_filterMap.mp member
        exact ⟨event, there, (step event there).mpr (.inl ⟨request, acked, named⟩)⟩
      · obtain ⟨event, there, dictated⟩ := List.mem_flatMap.mp member
        exact ⟨event, there, (step event there).mpr (.inr ⟨text, dictated, found⟩)⟩
    obtain ⟨event, there, reported, here, inside⟩ := reported
    exact ⟨_, .tail _ (List.mem_flatMap.mpr ⟨event, there, List.mem_map.mpr ⟨_, here, rfl⟩⟩),
      inside⟩

theorem ProcessRun.result_of_acknowledged (process : ProcessRun argv history final) :
    ∀ request ∈ acknowledged history,
      final.coord.sigResult[signature request]? = some request.result := by
  refine process.ledger (fun _ acks s => ∀ request ∈ acks,
    s.sigResult[signature request]? = some request.result) ?_ (by simp)
  intro submits acks before after submit acked logged progress ih other member
  cases progress with
  | @commit request current fresh =>
      simp only [commit, getElem?_insert_ite]
      rcases List.mem_append.mp member with earlier | now
      · have stored := ih other earlier
        have apart : signature request ≠ signature other := by
          intro same
          refine fresh ((logged _).mpr ?_)
          rw [same]
          exact Std.ExtTreeMap.mem_iff_isSome_getElem?.mpr (by simp [stored])
        simpa [apart] using stored
      · obtain rfl := by simpa using now
        simp
  | submit live => exact ih other (by simpa using member)
  | keep => exact ih other (by simpa using member)

/-- The wait for the numbers of a submit ends when a completion with them is acknowledged and
not before, unless they are dictated by someone else; and the result is in the commit log. -/
theorem acceptance_waited_for (process : ProcessRun argv history final)
    (known : authority ∈ issued history) (windows : Bool) (port : UInt16)
    (undictated : ∀ text ∈ history.flatMap echoed,
      ¬ marker authority.attempt authority.gen <:+: shown windows text)
    (acc : Bytes) (reads : List Bytes) :
    (acc ++ reads.flatten <+: stdout windows port history →
      (waitStdout (marker authority.attempt authority.gen) acc reads).1 = true →
      ∃ request ∈ acknowledged history, request.authority = authority ∧
        final.coord.sigResult[signature request]? = some request.result) ∧
    ∀ earlier later, history = earlier ++ later →
      (∃ request ∈ acknowledged earlier, request.authority = authority) →
      stdout windows port earlier <+: acc ++ reads.flatten → reads ≠ [] →
      (waitStdout (marker authority.attempt authority.gen) acc reads).1 = true := by
  constructor
  · intro read found
    have inside := (waitStdout_iff.mp found).2.trans read.isInfix
    rcases (process.marker_infix_iff known windows port).mp inside with
      ⟨request, member, named⟩ | ⟨text, dictated, shown⟩
    · exact ⟨request, member, named, process.result_of_acknowledged request member⟩
    · exact absurd shown (undictated text dictated)
  · rintro earlier later rfl acked read nonempty
    obtain ⟨coord, booted, run⟩ := process
    obtain ⟨state, first, -⟩ := run.split
    have before : ProcessRun argv earlier state := ⟨coord, booted, first⟩
    obtain ⟨request, member, named⟩ := acked
    have submitted : authority ∈ issued earlier :=
      named ▸ before.ledger_holds.acknowledgedIssued request member
    have written := (before.marker_infix_iff submitted windows port).mpr
      (.inl ⟨request, member, named⟩)
    exact waitStdout_iff.mpr ⟨nonempty, written.trans read.isInfix⟩

theorem acceptance_waited_for_once : ∃ history final, ProcessRun [] history final ∧
    (waitStdout (marker 1 1) [] [stdout true 4000 history]).1 = true ∧
    ∃ request ∈ acknowledged history, request.authority = ⟨1, 1, 1, 1⟩ ∧
      final.coord.sigResult[signature request]? = some request.result := by
  obtain ⟨history, final, run, known, undictated, acked⟩ := machine.exists_run { coord := {} }
    [.accept 4, .frame 4 MsgType.register.code (ascii "w|7|3"), .accept 5,
      .frame 5 MsgType.submit.code (ascii "7|a"), .sendDispatch 5 true, .sendResponse 5,
      .frame 4 MsgType.workStarted.code (ascii "started"),
      .frame 4 MsgType.complete.code (ascii "1|1|1|1|7|3|R")]
    (fun history _ => ⟨1, 1, 1, 1⟩ ∈ issued history ∧
      (∀ text ∈ history.flatMap echoed, ¬ marker 1 1 <:+: shown true text) ∧
      ∃ request ∈ acknowledged history, request.authority = ⟨1, 1, 1, 1⟩) (by decide +kernel)
  have process : ProcessRun [] history final := ⟨{}, rfl, run⟩
  obtain ⟨sound, complete⟩ := acceptance_waited_for process known true 4000 undictated []
    [stdout true 4000 history]
  have found := complete history [] (by simp) acked (by simp) (by simp)
  exact ⟨history, final, process, found, sound (by simp) found⟩

end Waiting

end Coordinator

end ChaosLab
