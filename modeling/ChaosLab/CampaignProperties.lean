import ChaosLab.Campaign

/-! When a campaign passes its check. -/

set_option autoImplicit false

namespace ChaosLab

theorem ResourceEnvelope.validate_eq_true_iff {envelope : ResourceEnvelope} :
    envelope.validate = true ↔
      1 ≤ envelope.maxChildProcesses ∧ 1 ≤ envelope.maxRestarts ∧ 1 ≤ envelope.maxOpenSockets ∧
        envelope.allowedTempRoot.length ≤ 512 := by
  unfold validate
  simp only [← Int32.not_lt]
  by_cases children : envelope.maxChildProcesses < 1
  · simp [children]
  · by_cases restarts : envelope.maxRestarts < 1
    · simp [restarts]
    · by_cases sockets : envelope.maxOpenSockets < 1
      · simp [sockets]
      · cases root : envelope.allowedTempRoot with
        | nil => simp [children, restarts, sockets]
        | cons byte bytes => simp [children, restarts, sockets]

namespace ChaosCampaign

theorem validateTargets_eq_ok_iff {targets : List TargetSpec} :
    validateTargets targets = .ok () ↔
      (targets.map TargetSpec.id).Nodup ∧
        ∀ target ∈ targets, target.kind = .process → target.executable ≠ [] := by
  induction targets with
  | nil => simp [validateTargets]
  | cons target rest ih =>
      rw [validateTargets, List.map_cons, List.nodup_cons, List.forall_mem_cons]
      have found : (rest.any fun later => target.id = later.id) = true ↔
          target.id ∈ rest.map TargetSpec.id := by
        simp only [List.any_eq_true, decide_eq_true_eq, List.mem_map]
        exact exists_congr fun later => and_congr_right fun _ => eq_comm
      by_cases repeated : target.id ∈ rest.map TargetSpec.id
      · simp [found.mpr repeated, repeated]
      · rw [if_neg (mt found.mp repeated)]
        by_cases bare : target.kind = .process ∧ target.executable = []
        · simp [bare]
        · rw [if_neg bare, ih]
          tauto

theorem validateFaultTargets_eq_ok_iff {targets : List TargetSpec} {ids : List TargetId} :
    validateFaultTargets targets ids = .ok () ↔ ∀ id ∈ ids, Owned targets id := by
  induction ids with
  | nil => simp [validateFaultTargets]
  | cons id rest ih =>
      rw [validateFaultTargets, List.forall_mem_cons]
      by_cases owned : Owned targets id
      · have found : (targets.any fun target => target.id = id) = true := by
          simpa [Owned] using owned
        simp [found, owned, ih]
      · have missed : (targets.any fun target => target.id = id) = false := by
          simpa [Owned] using owned
        simp [missed, owned]

theorem validateFaults_eq_ok_iff {targets : List TargetSpec} {faults : List FaultSpec} :
    validateFaults targets faults = .ok () ↔
      ∀ fault ∈ faults, ∀ id ∈ fault.targets, Owned targets id := by
  induction faults with
  | nil => simp [validateFaults]
  | cons fault rest ih =>
      rw [validateFaults, List.forall_mem_cons, ← validateFaultTargets_eq_ok_iff, ← ih]
      cases validateFaultTargets targets fault.targets with
      | error error => simp
      | ok => simp

/-- Everything `validate` checks. -/
theorem validate_eq_ok_iff {campaign : ChaosCampaign} :
    campaign.validate = .ok () ↔
      campaign.envelope.validate = true ∧ campaign.seed ≠ 0 ∧ 1 ≤ campaign.repetitionCount ∧
        (campaign.targets.map TargetSpec.id).Nodup ∧
        (∀ target ∈ campaign.targets, target.kind = .process → target.executable ≠ []) ∧
        ∀ fault ∈ campaign.faultSchedule, ∀ id ∈ fault.targets, Owned campaign.targets id := by
  rw [validate, ← validateFaults_eq_ok_iff, ← and_assoc (a := List.Nodup _),
    ← validateTargets_eq_ok_iff]
  cases bounded : campaign.envelope.validate with
  | false => simp
  | true =>
      by_cases unseeded : campaign.seed = 0
      · simp [unseeded]
      · by_cases idle : campaign.repetitionCount < 1
        · simp [idle, unseeded, ← Int32.not_lt]
        · cases validateTargets campaign.targets with
          | error error => simp [idle, unseeded]
          | ok => simp [idle, unseeded, ← Int32.not_lt]

end ChaosCampaign

end ChaosLab
