import ChaosLab.FuzzProperties

/-! Generated campaigns stay inside the bounds they are asked for and inside their own
envelope. -/

set_option autoImplicit false

namespace ChaosLab

namespace CampaignFuzzer

def isKind (kind : TargetKind) (target : TargetSpec) : Bool := target.kind = kind

/-- The cleanup of one target. -/
def killOf (target : TargetSpec) : CleanupAction := { kind := .killProcess, target := target.id }

/-- The campaign keeps to these bounds and to its own envelope. -/
structure WithinBounds (campaign : ChaosCampaign) (maxWorkers maxFaults : Int32) : Prop where
  someWorker : 1 ≤ campaign.targets.countP (isKind .worker)
  fewWorkers : campaign.targets.countP (isKind .worker) ≤ maxWorkers.toInt
  oneCoordinator : campaign.targets.countP (isKind .coordinator) = 1
  distinct : (campaign.targets.map TargetSpec.id).Nodup
  someFault : 1 ≤ campaign.faultSchedule.length
  fewFaults : campaign.faultSchedule.length ≤ maxFaults.toInt
  numbered : campaign.faultSchedule.map (fun fault => fault.id.value.toNat) =
    List.range' 1 campaign.faultSchedule.length
  cleanup : campaign.cleanupActions = campaign.targets.map killOf
  envelope : campaign.envelope.validate = true
  children : campaign.targets.countP TargetSpec.ownsProcess ≤
    campaign.envelope.maxChildProcesses.toInt

section Targets

theorem length_countTo {count : Nat} (small : count < 2 ^ 31) :
    (countTo (Int32.ofNat count)).length = count := by
  rw [countTo_ofNat small, List.length_map, List.length_range]

/-- A property that all workers have or none has, and that the coordinator has or has not. -/
theorem countP_fuzzedTargets {workers : Nat} (few : workers ≤ 32768) (holds : TargetSpec → Bool)
    (ofWorkers : Bool) (same : ∀ idx, holds (randomWorker idx) = ofWorkers) :
    (fuzzedTargets (Int32.ofNat workers)).countP holds =
      (if ofWorkers then workers else 0) + if holds coordinator then 1 else 0 := by
  have each : holds ∘ randomWorker = fun _ => ofWorkers := funext same
  rw [fuzzedTargets, List.countP_append, List.countP_map, each, List.countP_singleton]
  cases ofWorkers with
  | false => simp
  | true =>
      rw [List.countP_true, length_countTo (by omega)]
      rfl

theorem ownsProcess_of_mem {workers : Int32} {target : TargetSpec}
    (member : target ∈ fuzzedTargets workers) : target.ownsProcess = true := by
  rw [fuzzedTargets, List.mem_append, List.mem_map, List.mem_singleton] at member
  rcases member with ⟨idx, -, rfl⟩ | rfl
  · rfl
  · rfl

end Targets

section Faults

theorem randomFault_id (id : FaultId) (category : FaultCategory) (idx : Int32) :
    (randomFault id category idx).id = id := by
  obtain ⟨params, shape⟩ := randomFault_eq id category idx
  rw [shape]

theorem length_randomFaults (categories : List FaultCategory) :
    (randomFaults categories).length = categories.length := by
  rw [randomFaults, List.length_map, List.length_zipIdx]

theorem numbered_randomFaults {categories : List FaultCategory}
    (bounded : categories.length < 2 ^ 31) :
    (randomFaults categories).map (fun fault => fault.id.value.toNat) =
      List.range' 1 categories.length := by
  have ids : (randomFaults categories).map (fun fault => fault.id.value.toNat) =
      categories.zipIdx.map fun item => 1 + item.2 := by
    rw [randomFaults, List.map_map]
    apply List.map_congr_left
    intro item member
    have inside := (List.mem_zipIdx member).2.1
    have small : item.2 + 1 < 2 ^ 64 := by omega
    rw [Function.comp_apply, randomFault_id, UInt64.toNat_ofNat_of_lt' small, Nat.add_comm]
  have numbers : categories.zipIdx.map (fun item => 1 + item.2) =
      (categories.zipIdx.map Prod.snd).map (1 + ·) := List.map_map.symm
  rw [ids, numbers, List.zipIdx_map_snd, List.map_add_range']

end Faults

theorem withinBounds_fuzzedCampaign (seed : UInt64) {workers : Nat} (someWorker : 1 ≤ workers)
    (few : workers ≤ 32768) {categories : List FaultCategory} (someFault : 1 ≤ categories.length)
    {maxWorkers maxFaults : Int32} (fewWorkers : workers ≤ maxWorkers.toInt)
    (fewFaults : categories.length ≤ maxFaults.toInt) :
    WithinBounds (fuzzedCampaign seed ⟨Int32.ofNat workers, categories⟩) maxWorkers
      maxFaults := by
  have workerCount := countP_fuzzedTargets few (isKind .worker) true fun _ => rfl
  have coordinatorCount := countP_fuzzedTargets few (isKind .coordinator) false fun _ => rfl
  have ownerCount := countP_fuzzedTargets few TargetSpec.ownsProcess true fun _ => rfl
  have owners : (fuzzedTargets (Int32.ofNat workers)).filter TargetSpec.ownsProcess =
      fuzzedTargets (Int32.ofNat workers) :=
    List.filter_eq_self.mpr fun target member => ownsProcess_of_mem member
  have faultCount := length_randomFaults categories
  have bounded : categories.length < 2 ^ 31 := by
    have most := maxFaults.toInt_lt
    omega
  exact {
    someWorker := by
      change 1 ≤ (fuzzedTargets (Int32.ofNat workers)).countP _
      rw [workerCount]
      exact someWorker
    fewWorkers := by
      change ((fuzzedTargets (Int32.ofNat workers)).countP _ : Int) ≤ _
      rw [workerCount]
      exact fewWorkers
    oneCoordinator := coordinatorCount
    distinct := nodup_fuzzedTargets_ids few
    someFault := by
      change 1 ≤ (randomFaults categories).length
      rw [faultCount]
      exact someFault
    fewFaults := by
      change ((randomFaults categories).length : Int) ≤ _
      rw [faultCount]
      exact fewFaults
    numbered := by
      change _ = List.range' 1 (randomFaults categories).length
      rw [faultCount]
      exact numbered_randomFaults bounded
    cleanup := by
      change ((fuzzedTargets (Int32.ofNat workers)).filter TargetSpec.ownsProcess).map killOf = _
      rw [owners]
      rfl
    envelope := validate_fuzzedEnvelope few seed categories
    children := by
      rw [toInt_maxChildProcesses few]
      change ((fuzzedTargets (Int32.ofNat workers)).countP _ : Int) ≤ _
      rw [ownerCount]
      change ((workers + 1 : Nat) : Int) ≤ _
      omega }

/-- Every campaign of a generator keeps to the bounds of its call. -/
theorem generate_within_bounds (fuzzer : CampaignFuzzer) {maxWorkers maxFaults : Int32}
    (someWorker : 1 ≤ maxWorkers) (fewWorkers : maxWorkers ≤ 32768) (someFault : 1 ≤ maxFaults) :
    WithinBounds (fuzzer.generate maxWorkers maxFaults).1 maxWorkers maxFaults := by
  have few := drawn_le_limit someWorker fewWorkers fuzzer.rng.next.1
  have workersWithin := drawn_le someWorker fuzzer.rng.next.1
  have faultsWithin := drawn_le someFault fuzzer.rng.next.2.next.1
  obtain ⟨workers, faults⟩ := draws_eq fuzzer.rng someWorker someFault
  have drawn : (draws fuzzer.rng maxWorkers maxFaults).1 =
      ⟨Int32.ofNat (1 + fuzzer.rng.next.1.toNat % maxWorkers.toInt.toNat),
        (draws fuzzer.rng maxWorkers maxFaults).1.categories⟩ := by
    rw [← workers]
  rw [generate_eq, drawn]
  apply withinBounds_fuzzedCampaign
  · omega
  · exact few
  · omega
  · omega
  · omega

/-- The largest number of workers that is asked for, and a single fault. -/
theorem generate_within_bounds_many_workers :
    WithinBounds ((new 7).generate 32768 1).1 32768 1 :=
  generate_within_bounds (new 7) (by decide) (by decide) (by decide)

end CampaignFuzzer

end ChaosLab
