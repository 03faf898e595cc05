import ChaosLab.CoordinatorProperties
import ChaosLab.Foundation.OrderedMap

/-! The coordinator seen through what it hands out and what it acknowledges. A
step either issues the numbers of a submit, or commits one completion, or leaves
the authority and the commit log alone; invariants over whole runs follow from
these three cases. -/

set_option autoImplicit false

namespace ChaosLab

namespace Coordinator

open Foundation

section Histories

variable (history later : List Event) (event : Event)

@[simp] theorem submissions_append :
    submissions (history ++ later) = submissions history ++ submissions later :=
  List.filterMap_append ..

@[simp] theorem submissions_singleton : submissions [event] =
    ((acceptedSubmit? event.before.coord event.action).map
      fun fd => (fd, event.after.coord.authority)).toList := by
  simp only [submissions, List.filterMap_cons, List.filterMap_nil]
  cases acceptedSubmit? event.before.coord event.action <;> rfl

@[simp] theorem issued_append : issued (history ++ later) = issued history ++ issued later := by
  simp [issued]

@[simp] theorem length_issued : (issued history).length = (submissions history).length := by
  simp [issued]

@[simp] theorem acknowledged_nil : acknowledged [] = [] := rfl

@[simp] theorem acknowledged_append :
    acknowledged (history ++ later) = acknowledged history ++ acknowledged later :=
  List.filterMap_append ..

@[simp] theorem acknowledged_singleton : acknowledged [event] = (acknowledged? event).toList := by
  simp only [acknowledged, List.filterMap_cons, List.filterMap_nil]
  cases acknowledged? event <;> rfl

end Histories

def Logged (s : CoordState) : Prop := ∀ sig, sig ∈ s.committed ↔ sig ∈ s.sigResult

theorem logged_commit {s : CoordState} (logged : Logged s) (request : CompleteRequest) :
    Logged (commit s request) := by
  intro sig
  simp only [commit, Std.ExtTreeSet.mem_insert, Std.ExtTreeMap.mem_insert, logged sig]

theorem completeLocked_cases {s : CoordState} (logged : Logged s) (request : CompleteRequest)
    (fd : Int) :
    (Current s request ∧ signature request ∉ s.committed ∧
      completeLocked s request fd = (commit s request, acceptance s request.result fd)) ∨
    ((¬ Current s request ∨ signature request ∈ s.committed) ∧
      ∃ reason, completeLocked s request fd = (s, rejection fd reason)) := by
  by_cases current : Current s request
  · by_cases committed : signature request ∈ s.committed
    · exact .inr ⟨.inr committed,
        completeLocked_of_committed current committed ((logged _).mp committed) fd⟩
    · exact .inl ⟨current, committed, completeLocked_of_fresh current committed fd⟩
  · exact .inr ⟨.inl current, completeLocked_of_not_current current fd⟩

theorem closeConnection_keeps (fd : Int) (s : CoordState) :
    ∃ workers fdToWorker, (closeConnection fd s).1 =
      { s with workers := workers, fdToWorker := fdToWorker } := by
  unfold closeConnection
  split
  · exact ⟨s.workers, s.fdToWorker, rfl⟩
  · split
    · exact ⟨s.workers, _, rfl⟩
    · exact ⟨_, _, rfl⟩

/-- One step, with the submit it accepts and the completion it acknowledges. -/
inductive Progress (before : CoordState) :
    CoordState → Option Int → Option CompleteRequest → Prop where
  | submit {fd : Int} {target : UInt64} {worker : Worker}
      (live : liveWorker? before target = some worker) :
      Progress before (allocate before target worker) (some fd) none
  | commit {request : CompleteRequest} (current : Current before request)
      (fresh : signature request ∉ before.committed) :
      Progress before (commit before request) none (some request)
  | keep (workers : Std.ExtTreeMap UInt64 Worker) (fdToWorker : Std.ExtTreeMap Int UInt64)
      (shuttingDown : Bool) :
      Progress before
        { before with
          workers := workers
          fdToWorker := fdToWorker
          shuttingDown := shuttingDown } none none

theorem Progress.refl (s : CoordState) : Progress s s none none :=
  .keep s.workers s.fdToWorker s.shuttingDown

theorem Progress.logged {before after : CoordState} {submit : Option Int}
    {acknowledged : Option CompleteRequest}
    (progress : Progress before after submit acknowledged) (logged : Logged before) :
    Logged after := by
  cases progress with
  | submit => exact logged
  | commit => exact logged_commit logged _
  | keep => exact logged

theorem acknowledged?_of_completion_none {event : Event}
    (absent : completion? event.action = none) : acknowledged? event = none := by
  simp [acknowledged?, absent]

theorem completion_spec {before after : System} {action : Action} {outputs : List Effect}
    {request : CompleteRequest}
    (stepped : machine.step before action = some (after, outputs))
    (completed : completion? action = some request) :
    ∃ fd, outputs = (completeLocked before.coord request fd).2 := by
  cases stepped_of_step stepped with
  | accept | sendDispatch | sendResponse | disconnect => cases completed
  | register _ named | submit _ named | shutdown _ named => simp [completion?, named] at completed
  | inert _ unchanging => simp [unchanging.complete] at completed
  | @complete fd _ _ other ready named read =>
      simp only [completion?, named, read, if_true, Option.some.injEq] at completed
      exact ⟨fd, by rw [completed]⟩

theorem progress_of_step {before after : System} {action : Action} {outputs : List Effect}
    (logged : Logged before.coord)
    (stepped : machine.step before action = some (after, outputs)) :
    Progress before.coord after.coord (acceptedSubmit? before.coord action)
      (acknowledged? ⟨before, action, outputs, after⟩) := by
  cases stepped_of_step stepped with
  | accept => exact .refl _
  | register ready named read =>
      rw [acknowledged?_of_completion_none (by simp [completion?, named])]
      simp only [acceptedSubmit?, named]
      exact .keep _ _ _
  | submit ready named read live =>
      rw [acknowledged?_of_completion_none (by simp [completion?, named])]
      simp only [acceptedSubmit?, named, read, live, if_true, Option.map_some]
      exact .submit live
  | @complete fd _ _ request ready named read =>
      simp only [acceptedSubmit?, named]
      rcases completeLocked_cases logged request fd with
        ⟨current, fresh, locked⟩ | ⟨-, reason, locked⟩
      · simp only [locked, acknowledged?, acceptance, completion?, named, read]
        exact .commit current fresh
      · simp only [locked, acknowledged?, rejection]
        exact .refl _
  | inert ready unchanging =>
      rw [unchanging.submit, acknowledged?_of_completion_none unchanging.complete]
      exact .refl _
  | shutdown ready named =>
      rw [acknowledged?_of_completion_none (by simp [completion?, named])]
      simp only [acceptedSubmit?, named]
      exact .keep _ _ _
  | sendDispatch => exact .refl _
  | sendResponse =>
      rw [acknowledged?_of_completion_none rfl]
      exact .refl _
  | @disconnect fd ready =>
      obtain ⟨workers, fdToWorker, closed⟩ := closeConnection_keeps fd before.coord
      rw [acknowledged?_of_completion_none rfl, closed]
      exact .keep workers fdToWorker _

/-- The arguments decide the epoch and the name of the state file, nothing else. -/
theorem parseArgs_spec {s coord : CoordState} {argv : List Bytes}
    (booted : parseArgs s argv = .ok coord) :
    ∃ epoch stateFile, coord = { s with epoch := epoch, stateFile := stateFile } := by
  fun_induction parseArgs s argv with
  | case1 s => exact ⟨s.epoch, s.stateFile, (Except.ok.inj booted).symm⟩
  | case2 s option => exact ⟨s.epoch, s.stateFile, (Except.ok.inj booted).symm⟩
  | case3 s value rest ih => exact ih booted
  | case4 s value rest _ ih => exact ih booted
  | case5 s value rest _ _ ih =>
      obtain ⟨epoch, read, booted⟩ := bind_ok booted
      exact ih epoch booted
  | case6 s option value rest _ _ _ ih => exact ih booted

theorem parseArgs_epoch {s coord : CoordState} {argv : List Bytes}
    (absent : ascii "--epoch" ∉ argv) (booted : parseArgs s argv = .ok coord) :
    coord.epoch = s.epoch := by
  fun_induction parseArgs s argv with
  | case1 s => exact congrArg _ (Except.ok.inj booted).symm
  | case2 s option => exact congrArg _ (Except.ok.inj booted).symm
  | case3 s value rest ih => exact ih (by simp_all) booted
  | case4 s value rest _ ih => exact ih (by simp_all) booted
  | case5 s value rest _ _ ih => simp at absent
  | case6 s option value rest _ _ _ ih => exact ih (by simp_all) booted

example : parseArgs { epoch := 3 } [ascii "--state-file", ascii "s", ascii "--port", ascii "1"] =
    .ok { epoch := 3, stateFile := ascii "s" } := by decide +kernel

section Runs

variable {argv : List Bytes} {history : List Event} {start final : System}

theorem logged_of_run (run : Run machine start history final) (logged : Logged start.coord) :
    Logged final.coord :=
  run.invariant (fun system => Logged system.coord)
    (fun logged stepped => (progress_of_step logged stepped).logged logged) logged

/-- Ledger rule: what holds at the start and is kept by every `Progress` holds of
the submits and acknowledgements of a run and of its last state. -/
theorem ledger_of_run
    (holds : List (Int × Authority) → List CompleteRequest → CoordState → Prop)
    (step : ∀ {submits acks before after submit acknowledged}, Logged before →
      Progress before after submit acknowledged → holds submits acks before →
      holds (submits ++ (submit.map fun fd => (fd, after.authority)).toList)
        (acks ++ acknowledged.toList) after)
    (run : Run machine start history final) (logged : Logged start.coord)
    (initial : holds [] [] start.coord) :
    holds (submissions history) (acknowledged history) final.coord := by
  induction run with
  | nil => exact initial
  | snoc previous stepped ih =>
      have before := logged_of_run previous logged
      simpa using step before (progress_of_step before stepped) ih

theorem logged_of_booted {coord : CoordState} (booted : parseArgs {} argv = .ok coord) :
    Logged coord := by
  obtain ⟨epoch, stateFile, rfl⟩ := parseArgs_spec booted
  intro sig
  simp

theorem ProcessRun.logged (process : ProcessRun argv history final) : Logged final.coord := by
  obtain ⟨coord, booted, run⟩ := process
  exact logged_of_run run (logged_of_booted booted)

theorem ProcessRun.ledger
    (holds : List (Int × Authority) → List CompleteRequest → CoordState → Prop)
    (step : ∀ {submits acks before after submit acknowledged}, Logged before →
      Progress before after submit acknowledged → holds submits acks before →
      holds (submits ++ (submit.map fun fd => (fd, after.authority)).toList)
        (acks ++ acknowledged.toList) after)
    (process : ProcessRun argv history final)
    (initial : ∀ epoch stateFile, holds [] [] { epoch := epoch, stateFile := stateFile }) :
    holds (submissions history) (acknowledged history) final.coord := by
  obtain ⟨coord, booted, run⟩ := process
  refine ledger_of_run holds step run (logged_of_booted booted) ?_
  obtain ⟨epoch, stateFile, rfl⟩ := parseArgs_spec booted
  exact initial epoch stateFile

theorem ProcessRun.continued {later : List Event} {next : System}
    (process : ProcessRun argv history final) (run : Run machine final later next) :
    ProcessRun argv (history ++ later) next := by
  obtain ⟨coord, booted, first⟩ := process
  exact ⟨coord, booted, first.append run⟩

end Runs

end Coordinator

end ChaosLab
