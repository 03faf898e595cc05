import ChaosLab.CompareProperties

/-! The flags of a replay report and its list of differences tell the same. -/

set_option autoImplicit false

namespace ChaosLab

open EvidenceRecorder

/-- Nothing is reported as different but what has an entry in the list. -/
def ReplayReport.Coherent (report : ReplayReport) : Prop :=
  report.allSame = true ↔ report.differences = []

/-- The five flags are the same. -/
structure ReplayReport.SameFlags (left right : ReplayReport) : Prop where
  plan : left.samePlan = right.samePlan
  injections : left.sameInjections = right.sameInjections
  assertions : left.sameAssertions = right.sameAssertions
  terminalState : left.sameTerminalState = right.sameTerminalState
  stateDigest : left.sameStateDigest = right.sameStateDigest

theorem Digest256.equal_comm (left right : Digest256) : left.equal right = right.equal left := by
  have words (index : Nat) :
      (left.toU64 index == right.toU64 index) = (right.toU64 index == left.toU64 index) :=
    Bool.beq_comm
  rw [Digest256.equal, Digest256.equal, words 0, words 1, words 2, words 3]

section Comparison

variable {a b : List EvidenceRecord}

theorem recordDiffers_comm (left right : EvidenceRecord) :
    recordDiffers left right = recordDiffers right left := by
  rw [Bool.eq_iff_iff, ← Bool.not_eq_false, ← Bool.not_eq_false, not_iff_not,
    recordDiffers_eq_false_iff, recordDiffers_eq_false_iff]
  simp [eq_comm]

theorem undistinguished_symm
    (same : List.Forall₂ (fun left right => recordDiffers left right = false) a b) :
    List.Forall₂ (fun left right => recordDiffers left right = false) b a := by
  apply List.Forall₂.flip
  apply same.imp
  intro left right undistinguished
  rw [flip, recordDiffers_comm]
  exact undistinguished

theorem sameFlags_compareRuns (a b : List EvidenceRecord) :
    (compareRuns a b).SameFlags (compareRuns b a) where
  plan := by
    rw [Bool.eq_iff_iff, samePlan_iff, samePlan_iff]
    exact ⟨undistinguished_symm, undistinguished_symm⟩
  injections := Bool.beq_comm
  assertions := Bool.beq_comm
  terminalState := Bool.beq_comm
  stateDigest := Digest256.equal_comm _ _

theorem coherent_compareRuns (a b : List EvidenceRecord) : (compareRuns a b).Coherent := by
  have entry (flag : Bool) (text : Bytes) :
      (if flag = true then [] else [text]) = [] ↔ flag = true := by
    cases flag with
    | false => simp
    | true => simp
  unfold ReplayReport.Coherent ReplayReport.allSame compareRuns
  simp only [Bool.and_eq_true, List.append_eq_nil_iff, List.isEmpty_iff, entry]

end Comparison

section Plans

/-- An entry in the list goes with a flag that is cleared. -/
theorem ReplayReport.Coherent.reportInjection {r : ReplayReport} (entry : Bytes) :
    ({ r with sameInjections := false, differences := r.differences ++ [entry] } :
      ReplayReport).Coherent := by
  simp [Coherent, allSame]

theorem coherent_compareInjections {r : ReplayReport} (coherent : r.Coherent) (index : Nat)
    (fired expected : List Bytes) : (compareInjections r index fired expected).Coherent := by
  induction fired generalizing r index expected with
  | nil => exact coherent
  | cons first rest ih =>
      cases expected with
      | nil => exact coherent
      | cons other others =>
          rw [compareInjections]
          apply ih
          split
          · exact .reportInjection _
          · exact coherent

theorem coherent_replayPlan (campaign : ChaosCampaign) (events expected : List Bytes) :
    (replayPlan campaign events expected).Coherent := by
  rw [replayPlan]
  split
  · exact .reportInjection _
  · apply coherent_compareInjections
    simp [ReplayReport.Coherent, ReplayReport.allSame]

end Plans

theorem coherent_replayEvidence (records : List EvidenceRecord) (expected : Digest256) :
    (replayEvidence records expected).Coherent := by
  cases same : (recordRawAll records).digest.equal expected with
  | false => simp [ReplayReport.Coherent, ReplayReport.allSame, replayEvidence, same]
  | true => simp [ReplayReport.Coherent, ReplayReport.allSame, replayEvidence, same]

/-- Every report of a replay is coherent; the report of a comparison does not depend on which
run is taken first, and where the records agree it finds no difference in what is made of
them, the terminal phase apart. -/
theorem replay_reports_coherent :
    (∀ a b : List EvidenceRecord,
      ((compareRuns a b).allSame = true ↔ (compareRuns a b).differences = []) ∧
      (compareRuns a b).SameFlags (compareRuns b a) ∧
      ((compareRuns a b).samePlan = true →
        (compareRuns a b).sameInjections = true ∧ (compareRuns a b).sameAssertions = true ∧
          (compareRuns a b).sameStateDigest = true)) ∧
    (∀ (campaign : ChaosCampaign) (events expected : List Bytes),
      (replayPlan campaign events expected).allSame = true ↔
        (replayPlan campaign events expected).differences = []) ∧
    ∀ (records : List EvidenceRecord) (expected : Digest256),
      (replayEvidence records expected).allSame = true ↔
        (replayEvidence records expected).differences = [] := by
  refine ⟨?_, coherent_replayPlan, coherent_replayEvidence⟩
  intro a b
  exact ⟨coherent_compareRuns a b, sameFlags_compareRuns a b, compareRuns_of_samePlan⟩

end ChaosLab
