import ChaosLab.CoordinatorCommit

/-! Successive lives of the coordinator. `save_state` has no caller and `main`
opens no file, so a life starts from its command line alone: the counters begin
at zero again and the first submit of every life gets the same numbers. -/

set_option autoImplicit false

namespace ChaosLab

namespace Coordinator

open Foundation

structure Life where
  argv : List Bytes
  history : List Event

/-- Lives started one after the other with the same state file and no `--epoch`;
each ends after any prefix of what it could have done. -/
structure Restarts (stateFile : Bytes) (lives : List Life) : Prop where
  process : ∀ life ∈ lives, ∃ final, ProcessRun life.argv life.history final
  sameFile : ∀ life ∈ lives, ∀ coord,
    parseArgs {} life.argv = .ok coord → coord.stateFile = stateFile
  noEpoch : ∀ life ∈ lives, ascii "--epoch" ∉ life.argv

/-- No numbers are issued in two lives, and no completion with the numbers of an
earlier life is acknowledged. -/
def MonotonicRecovery (lives : List Life) : Prop :=
  lives.Pairwise fun earlier later =>
    (∀ authority ∈ issued earlier.history, authority ∉ issued later.history) ∧
    ∀ request ∈ acknowledged later.history, request.authority ∉ issued earlier.history

/-- No `SUBMIT` of the life passes the check that its worker is alive. -/
def Life.Idle (life : Life) : Prop :=
  ∀ event ∈ life.history, acceptedSubmit? event.before.coord event.action = none

theorem Life.idle_iff {life : Life} : life.Idle ↔ issued life.history = [] := by
  simp [Life.Idle, issued, submissions, List.filterMap_eq_nil_iff]

theorem first_issued {argv : List Bytes} {history : List Event} {final : System}
    (process : ProcessRun argv history final) (noEpoch : ascii "--epoch" ∉ argv)
    (busy : issued history ≠ []) : authorityAt 1 1 ∈ issued history := by
  obtain ⟨coord, booted, run⟩ := process
  have epoch : final.coord.epoch = 1 :=
    (ProcessRun.epoch_eq ⟨coord, booted, run⟩ booted).trans (parseArgs_epoch noEpoch booted)
  rw [ProcessRun.issued_eq ⟨coord, booted, run⟩, epoch, List.mem_map]
  have positive := List.length_pos_iff.mpr busy
  exact ⟨1, List.mem_range'_1.mpr (by omega), rfl⟩

/-- Recovery is monotonic exactly when at most one of the lives accepts a submit. -/
theorem monotonicRecovery_iff {stateFile : Bytes} {lives : List Life}
    (restarts : Restarts stateFile lives) :
    MonotonicRecovery lives ↔ lives.Pairwise fun earlier later => earlier.Idle ∨ later.Idle := by
  refine List.Pairwise.iff_of_mem fun {earlier later} earlierMem laterMem => ?_
  obtain ⟨earlierFinal, earlierRun⟩ := restarts.process earlier earlierMem
  obtain ⟨laterFinal, laterRun⟩ := restarts.process later laterMem
  simp only [Life.idle_iff]
  constructor
  · intro recovery
    obtain ⟨disjoint, -⟩ := recovery
    by_contra busy
    rw [not_or] at busy
    exact disjoint _ (first_issued earlierRun (restarts.noEpoch earlier earlierMem) busy.1)
      (first_issued laterRun (restarts.noEpoch later laterMem) busy.2)
  · intro idle
    cases idle with
    | inl earlierIdle => simp [earlierIdle]
    | inr laterIdle =>
        refine ⟨by simp [laterIdle], fun request member => ?_⟩
        have inside := laterRun.ledger_holds.acknowledgedIssued request member
        change request.authority ∈ issued later.history at inside
        simp [laterIdle] at inside

theorem restarts_pair (argv : List Bytes) {stateFile : Bytes} {coord : CoordState}
    {first second : List Event} {firstFinal secondFinal : System}
    (booted : parseArgs {} argv = .ok coord) (sameFile : coord.stateFile = stateFile)
    (noEpoch : ascii "--epoch" ∉ argv)
    (firstRun : Run machine { coord := coord } first firstFinal)
    (secondRun : Run machine { coord := coord } second secondFinal) :
    Restarts stateFile [⟨argv, first⟩, ⟨argv, second⟩] where
  process := by
    simp only [List.mem_cons, List.not_mem_nil, or_false]
    rintro life (rfl | rfl)
    · exact ⟨firstFinal, coord, booted, firstRun⟩
    · exact ⟨secondFinal, coord, booted, secondRun⟩
  sameFile := by
    simp only [List.mem_cons, List.not_mem_nil, or_false]
    rintro life (rfl | rfl) started startedAs <;>
      exact Except.ok.inj (startedAs.symm.trans booted) ▸ sameFile
  noEpoch := by simp [noEpoch]

theorem monotonicRecovery_after_idle_restart : ∃ first second : List Event,
    issued first = [⟨1, 1, 1, 1⟩] ∧
    MonotonicRecovery [⟨[ascii "--state-file", ascii "s"], first⟩,
      ⟨[ascii "--state-file", ascii "s"], second⟩] := by
  obtain ⟨first, firstFinal, firstRun, firstIssued⟩ := machine.exists_run
    { coord := { stateFile := ascii "s" } }
    [.accept 4, .frame 4 MsgType.register.code (ascii "w|7|3"),
      .frame 4 MsgType.submit.code (ascii "7|a")]
    (fun history _ => issued history = [⟨1, 1, 1, 1⟩]) (by decide +kernel)
  obtain ⟨second, secondFinal, secondRun, secondIssued⟩ := machine.exists_run
    { coord := { stateFile := ascii "s" } }
    [.accept 4, .frame 4 MsgType.register.code (ascii "w|7|3"),
      .frame 4 MsgType.complete.code (ascii "1|1|1|1|7|3|done")]
    (fun history _ => issued history = []) (by decide +kernel)
  have restarts := restarts_pair [ascii "--state-file", ascii "s"] (by decide +kernel) rfl
    (by decide +kernel) firstRun secondRun
  refine ⟨first, second, firstIssued, (monotonicRecovery_iff restarts).mpr ?_⟩
  simp [Life.idle_iff, secondIssued]

/-- The worker survives the restart and registers again with the same boot; after
a submit of the second life its completion of the first life's work is accepted. -/
theorem acknowledged_across_restart : ¬ ∀ (stateFile : Bytes) (lives : List Life),
    Restarts stateFile lives → MonotonicRecovery lives := by
  intro monotonic
  obtain ⟨first, firstFinal, firstRun, firstIssued⟩ := machine.exists_run
    { coord := { stateFile := ascii "s" } }
    [.accept 4, .frame 4 MsgType.register.code (ascii "w|7|3"), .accept 5,
      .frame 5 MsgType.submit.code (ascii "7|a"), .sendDispatch 5 true]
    (fun history _ => issued history = [⟨1, 1, 1, 1⟩]) (by decide +kernel)
  obtain ⟨second, secondFinal, secondRun, secondAcknowledged⟩ := machine.exists_run
    { coord := { stateFile := ascii "s" } }
    [.accept 4, .frame 4 MsgType.register.code (ascii "w|7|3"), .accept 5,
      .frame 5 MsgType.submit.code (ascii "7|b"),
      .frame 4 MsgType.complete.code (ascii "1|1|1|1|7|3|done")]
    (fun history _ => acknowledged history = [⟨1, 1, 1, 1, 7, 3, ascii "done"⟩])
    (by decide +kernel)
  have restarts := restarts_pair [ascii "--state-file", ascii "s"] (by decide +kernel) rfl
    (by decide +kernel) firstRun secondRun
  have disjoint := monotonic _ _ restarts
  simp [MonotonicRecovery, firstIssued, secondAcknowledged, CompleteRequest.authority] at disjoint

end Coordinator

end ChaosLab
