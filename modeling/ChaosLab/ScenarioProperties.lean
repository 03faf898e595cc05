import ChaosLab.CampaignProperties
import ChaosLab.Scenario
import ChaosLab.Foundation.Numbering
import ChaosLab.Foundation.Words

/-! Campaigns that come out of a builder. -/

set_option autoImplicit false

namespace ChaosLab

open Foundation

/-- The `TargetId` argument of a call. -/
def BuilderCall.targetArg : BuilderCall → Option TargetId
  | .startProcess t | .waitForRegistration t | .dispatchWork t | .captureAuthority t
  | .injectFault _ t | .killProcess t | .closeSocket t | .corruptFrame t | .truncateFile t _
  | .reduceCapacity t _ | .allocateMemory t _ | .releaseMemory t | .restartProcess t
  | .rollEpoch t | .replayStaleMessage t | .waitForState t _ | .save t | .reload t | .replay t
  | .cleanup t | .assertState t _ | .assertRejected t _ | .assertNoLeak t
  | .assertProcessAlive t | .assertProcessExit t | .assertAccountingZero t
  | .assertRecoveryComplete t => some t
  | _ => none

def BuilderCall.declares : BuilderCall → Bool
  | .targetProcess .. | .targetWorker .. | .targetCoordinator .. | .targetProxy ..
  | .targetPersistence .. | .targetDevice .. => true
  | _ => false

/-- Whether the call adds a fault to the schedule. -/
def BuilderCall.schedules : BuilderCall → Bool
  | .injectFault .. | .killProcess .. | .closeSocket .. | .corruptFrame .. | .truncateFile ..
  | .reduceCapacity .. => true
  | _ => false

/-- Whether the call adds an assertion. -/
def BuilderCall.asserts : BuilderCall → Bool
  | .assertState .. | .assertRejected .. | .assertNoLeak .. | .assertExactlyOneAuthority
  | .assertNoDoubleCommit | .assertProcessAlive .. | .assertProcessExit ..
  | .assertAccountingZero .. | .assertRecoveryComplete .. => true
  | _ => false

namespace ScenarioBuilder

/-- What a call has to respect, given the targets declared before it. -/
def Admissible (targets : List TargetSpec) : BuilderCall → Prop
  | .targetProcess _ executable _ => executable ≠ []
  | .envelope env => env.validate = true
  | call => ∀ t ∈ call.targetArg, Owned targets t

def AdmissibleFrom (builder : ScenarioBuilder) : List BuilderCall → Prop
  | [] => True
  | call :: calls =>
      Admissible builder.s.campaign.targets call ∧ (builder.apply call).AdmissibleFrom calls

/-- The id of target number `number`, counted from one. -/
def targetNumber (number : Nat) : TargetId := ⟨(1 : UInt64) <<< 63 ||| UInt64.ofNat number⟩

def faultNumber (number : Nat) : FaultId := ⟨UInt64.ofNat number⟩

def assertionNumber (number : Nat) : AssertionId := ⟨UInt64.ofNat number⟩

/-- Between two calls, the counters are the numbers of the next target, fault and
assertion, and the campaign passes its check up to the seed. -/
structure Coherent (builder : ScenarioBuilder) : Prop where
  seed : builder.s.campaign.seed = builder.ownSeed
  repetitions : builder.s.campaign.repetitionCount = 1
  envelope : builder.s.campaign.envelope.validate = true
  targets : Numbered TargetSpec.id targetNumber builder.s.campaign.targets
  nextTarget : builder.targetCounter = UInt64.ofNat (builder.s.campaign.targets.length + 1)
  executables : ∀ target ∈ builder.s.campaign.targets,
    target.kind = .process → target.executable ≠ []
  faults : Numbered FaultSpec.id faultNumber builder.s.campaign.faultSchedule
  nextFault : builder.faultCounter = UInt64.ofNat (builder.s.campaign.faultSchedule.length + 1)
  owned : ∀ fault ∈ builder.s.campaign.faultSchedule, ∀ id ∈ fault.targets,
    Owned builder.s.campaign.targets id
  assertions : Numbered AssertionSpec.id assertionNumber builder.s.campaign.assertions
  nextAssertion :
    builder.assertionCounter = UInt64.ofNat (builder.s.campaign.assertions.length + 1)

theorem coherent_new (seed : UInt64) : (new seed).Coherent where
  seed := rfl
  repetitions := rfl
  envelope := rfl
  targets := .nil
  nextTarget := rfl
  executables := by simp [new]
  faults := .nil
  nextFault := rfl
  owned := by simp [new]
  assertions := .nil
  nextAssertion := rfl

theorem counter_concat {Item : Type} {items : List Item} {counter : UInt64}
    (numbers : counter = UInt64.ofNat (items.length + 1)) (item : Item) :
    counter + 1 = UInt64.ofNat ((items ++ [item]).length + 1) := by
  rw [numbers, List.length_append, List.length_singleton, ofNat_add_one (items.length + 1)]

theorem owned_concat {targets : List TargetSpec} {id : TargetId} (owned : Owned targets id)
    (target : TargetSpec) : Owned (targets ++ [target]) id := by
  obtain ⟨found, member, same⟩ := owned
  exact ⟨found, List.mem_append_left _ member, same⟩

section Steps

variable {builder : ScenarioBuilder}

theorem Coherent.reseed (coherent : builder.Coherent) (seed : UInt64) :
    (builder.seed seed).Coherent :=
  { coherent with seed := rfl }

theorem Coherent.bound (coherent : builder.Coherent) {env : ResourceEnvelope}
    (bounded : env.validate = true) : (builder.envelope env).Coherent :=
  { coherent with envelope := bounded }

theorem Coherent.addStep (coherent : builder.Coherent) (op : ScenarioOp) (t : TargetId)
    (params : Fields) : (builder.addStep op t params).Coherent :=
  { coherent with }

theorem Coherent.declare (coherent : builder.Coherent) {describe : TargetId → TargetSpec}
    (identified : ∀ id, (describe id).id = id)
    (runnable : ∀ id, (describe id).kind = .process → (describe id).executable ≠ []) :
    (builder.declare describe).Coherent := by
  have fresh : (describe (builder.newTargetId true).1).id =
      targetNumber (builder.s.campaign.targets.length + 1) := by
    rw [identified, newTargetId, coherent.nextTarget]
    rfl
  exact { coherent with
    targets := coherent.targets.concat fresh
    nextTarget := counter_concat coherent.nextTarget _
    executables := by
      intro target member
      rcases List.mem_append.mp member with earlier | new
      · exact coherent.executables target earlier
      · rw [List.mem_singleton.mp new]
        exact runnable _
    owned := by
      intro fault member id listed
      exact owned_concat (coherent.owned fault member id listed) _ }

theorem Coherent.addFault (coherent : builder.Coherent) (c : FaultCategory) (scope : FaultScope)
    {t : TargetId} (declared : Owned builder.s.campaign.targets t) (params : Fields) :
    (builder.addFault c scope t params).Coherent :=
  { coherent with
    faults := coherent.faults.concat (congrArg Id.mk coherent.nextFault)
    nextFault := counter_concat coherent.nextFault _
    owned := by
      intro fault member id listed
      rcases List.mem_append.mp member with earlier | new
      · exact coherent.owned fault earlier id listed
      · rw [List.mem_singleton.mp new] at listed
        rw [List.mem_singleton.mp listed]
        exact declared }

theorem newAssertion_id (k : AssertionKind) (t : TargetId) (params : Fields) :
    (builder.newAssertion k t params).id = ⟨builder.assertionCounter⟩ := by
  unfold newAssertion
  by_cases global : t = kGlobal
  · simp [global]
  · simp [global, AssertionSpec.setParam]

theorem Coherent.addAssertion (coherent : builder.Coherent) (k : AssertionKind) (t : TargetId)
    (params : Fields) : (builder.addAssertion k t params).Coherent :=
  { coherent with
    assertions := coherent.assertions.concat
      ((newAssertion_id k t params).trans (congrArg Id.mk coherent.nextAssertion))
    nextAssertion := counter_concat coherent.nextAssertion _ }

/-- The step lemma. -/
theorem Coherent.apply (coherent : builder.Coherent) {call : BuilderCall}
    (admissible : Admissible builder.s.campaign.targets call) : (builder.apply call).Coherent := by
  cases call with
  | seed s => exact coherent.reseed s
  | purpose p => exact { coherent with }
  | envelope env => exact coherent.bound admissible
  | targetProcess name executable args =>
      unfold ScenarioBuilder.apply targetProcess
      apply coherent.declare
      · intro id
        rfl
      · intro id process
        exact admissible
  | targetWorker name executable args | targetCoordinator name executable args
  | targetProxy name executable | targetPersistence name path | targetDevice name kind =>
      simp only [ScenarioBuilder.apply, targetWorker, targetCoordinator, targetProxy,
        targetPersistence, targetDevice]
      apply coherent.declare
      · intro id
        rfl
      · intro id process
        cases process
  | startProcess t | waitForRegistration t | dispatchWork t | captureAuthority t
  | allocateMemory t bytes | releaseMemory t | restartProcess t | rollEpoch t
  | replayStaleMessage t | waitForState t state | save t | reload t | replay t | cleanup t =>
      exact coherent.addStep _ t _
  | injectFault c t | killProcess t | closeSocket t | corruptFrame t | truncateFile t offset
  | reduceCapacity t percent =>
      exact (coherent.addStep _ t _).addFault _ _ (admissible t rfl) _
  | assertState t expect | assertRejected t what =>
      exact (coherent.addStep _ t _).addAssertion _ t _
  | assertNoLeak t | assertProcessAlive t | assertProcessExit t | assertAccountingZero t
  | assertRecoveryComplete t =>
      exact coherent.addAssertion _ t _
  | assertExactlyOneAuthority | assertNoDoubleCommit => exact coherent.addAssertion _ kGlobal _

theorem length_targets_apply (builder : ScenarioBuilder) (call : BuilderCall) :
    (builder.apply call).s.campaign.targets.length =
      builder.s.campaign.targets.length + if call.declares then 1 else 0 := by
  cases call with
  | targetProcess name executable args | targetWorker name executable args
  | targetCoordinator name executable args | targetProxy name executable
  | targetPersistence name path | targetDevice name kind =>
      exact List.length_append
  | _ => rfl

theorem length_faultSchedule_apply (builder : ScenarioBuilder) (call : BuilderCall) :
    (builder.apply call).s.campaign.faultSchedule.length =
      builder.s.campaign.faultSchedule.length + if call.schedules then 1 else 0 := by
  cases call with
  | injectFault c t | killProcess t | closeSocket t | corruptFrame t | truncateFile t offset
  | reduceCapacity t percent =>
      exact List.length_append
  | _ => rfl

theorem length_assertions_apply (builder : ScenarioBuilder) (call : BuilderCall) :
    (builder.apply call).s.campaign.assertions.length =
      builder.s.campaign.assertions.length + if call.asserts then 1 else 0 := by
  cases call with
  | assertState t expect | assertRejected t what | assertNoLeak t | assertExactlyOneAuthority
  | assertNoDoubleCommit | assertProcessAlive t | assertProcessExit t | assertAccountingZero t
  | assertRecoveryComplete t =>
      exact List.length_append
  | _ => rfl

/-- The run lemma. -/
theorem Coherent.applyAll (coherent : builder.Coherent) {calls : List BuilderCall}
    (admissible : builder.AdmissibleFrom calls) : (builder.applyAll calls).Coherent := by
  induction calls generalizing builder with
  | nil => exact coherent
  | cons call calls ih => exact ih (coherent.apply admissible.1) admissible.2

/-- A list that some of the calls make longer by one. -/
theorem length_applyAll {Item : Type} (items : ScenarioBuilder → List Item)
    {adds : BuilderCall → Bool}
    (step : ∀ builder call, (items (apply builder call)).length =
      (items builder).length + if adds call then 1 else 0)
    (builder : ScenarioBuilder) (calls : List BuilderCall) :
    (items (builder.applyAll calls)).length = (items builder).length + calls.countP adds := by
  induction calls generalizing builder with
  | nil => rfl
  | cons call calls ih =>
      have later : (items (builder.applyAll (call :: calls))).length =
          (items (builder.apply call)).length + calls.countP adds := ih _
      rw [later, step, List.countP_cons, Nat.add_assoc, Nat.add_comm (ite _ _ _)]

theorem build_campaign (builder : ScenarioBuilder) :
    ∃ id generation, builder.build.campaign =
      { builder.s.campaign with id := id, generation := generation } := by
  unfold build
  dsimp only
  split
  · split
    · exact ⟨_, _, rfl⟩
    · exact ⟨_, _, rfl⟩
  · split
    · exact ⟨_, _, rfl⟩
    · exact ⟨_, _, rfl⟩

theorem Coherent.nodup_targets (coherent : builder.Coherent)
    (few : builder.s.campaign.targets.length < 2 ^ 63) :
    (builder.s.campaign.targets.map TargetSpec.id).Nodup := by
  apply coherent.targets.nodup
  intro first second known other same
  exact topBit_or_ofNat_inj (by omega) (by omega) (congrArg Id.value same)

theorem Coherent.validate_build (coherent : builder.Coherent) (seeded : builder.ownSeed ≠ 0)
    (few : builder.s.campaign.targets.length < 2 ^ 63) :
    builder.build.campaign.validate = .ok () := by
  obtain ⟨id, generation, built⟩ := build_campaign builder
  rw [built, ChaosCampaign.validate_eq_ok_iff]
  refine ⟨coherent.envelope, ?_, ?_, coherent.nodup_targets few, coherent.executables,
    coherent.owned⟩
  · change builder.s.campaign.seed ≠ 0
    rw [coherent.seed]
    exact seeded
  · change 1 ≤ builder.s.campaign.repetitionCount
    rw [coherent.repetitions]
    decide

end Steps

theorem declared {targets : List TargetSpec} {id : TargetId} (owned : Owned targets id) :
    ∀ t ∈ some id, Owned targets t := by
  intro t named
  rwa [← Option.some.inj named]

/-- Scenario builders yield valid campaigns: one target for each declaring call, and the
faults and the assertions numbered from one to the number of the calls that add them. -/
theorem built_campaign_valid {seed : UInt64} {calls : List BuilderCall}
    (admissible : (new seed).AdmissibleFrom calls)
    (few : calls.countP BuilderCall.declares < 2 ^ 63)
    (seeded : ((new seed).applyAll calls).ownSeed ≠ 0) :
    let campaign := ((new seed).applyAll calls).build.campaign
    campaign.validate = .ok () ∧
      (campaign.targets.map TargetSpec.id).Nodup ∧
      campaign.targets.length = calls.countP BuilderCall.declares ∧
      campaign.faultSchedule.map FaultSpec.id =
        (List.range' 1 (calls.countP BuilderCall.schedules)).map faultNumber ∧
      campaign.assertions.map AssertionSpec.id =
        (List.range' 1 (calls.countP BuilderCall.asserts)).map assertionNumber := by
  have coherent := (coherent_new seed).applyAll admissible
  have declaring := length_applyAll (·.s.campaign.targets) length_targets_apply (new seed) calls
  have scheduling :=
    length_applyAll (·.s.campaign.faultSchedule) length_faultSchedule_apply (new seed) calls
  have asserting :=
    length_applyAll (·.s.campaign.assertions) length_assertions_apply (new seed) calls
  rw [show (new seed).s.campaign.targets.length = 0 from rfl, Nat.zero_add] at declaring
  rw [show (new seed).s.campaign.faultSchedule.length = 0 from rfl, Nat.zero_add] at scheduling
  rw [show (new seed).s.campaign.assertions.length = 0 from rfl, Nat.zero_add] at asserting
  intro campaign
  have valid : campaign.validate = .ok () :=
    coherent.validate_build seeded (declaring.trans_lt few)
  obtain ⟨id, generation, built⟩ := build_campaign ((new seed).applyAll calls)
  have distinct : (campaign.targets.map TargetSpec.id).Nodup :=
    (ChaosCampaign.validate_eq_ok_iff.mp valid).2.2.2.1
  refine ⟨valid, distinct, ?_, ?_, ?_⟩
  · unfold campaign
    rw [built]
    exact declaring
  · unfold campaign
    rw [built, ← scheduling]
    exact coherent.faults
  · unfold campaign
    rw [built, ← asserting]
    exact coherent.assertions

/-- A worker is killed and its state judged, on a builder that gets its seed last. -/
theorem built_campaign_valid_killed_worker :
    let calls : List BuilderCall := [
      .targetCoordinator (ascii "coord") (ascii "target_coordinator") [],
      .targetWorker (ascii "A") (ascii "target_worker") [],
      .startProcess (targetNumber 1), .truncateFile (targetNumber 2) 16,
      .targetProcess (ascii "B") (ascii "target_worker") [],
      .killProcess (targetNumber 3), .assertState (targetNumber 2) (ascii "registered"),
      .assertNoDoubleCommit, .envelope { maxRestarts := 8 }, .seed 7]
    let campaign := ((new 0).applyAll calls).build.campaign
    campaign.validate = .ok () ∧
      (campaign.targets.map TargetSpec.id).Nodup ∧ campaign.targets.length = 3 ∧
      campaign.faultSchedule.map FaultSpec.id = [⟨1⟩, ⟨2⟩] ∧
      campaign.assertions.map AssertionSpec.id = [⟨1⟩, ⟨2⟩] := by
  intro calls
  have admissible : (new 0).AdmissibleFrom calls := by
    refine ⟨nofun, nofun, declared (by decide), declared (by decide), ?_,
      declared (by decide), declared (by decide), nofun, rfl, nofun, trivial⟩
    exact List.cons_ne_nil _ _
  exact built_campaign_valid admissible (by decide) (by decide)

end ScenarioBuilder

end ChaosLab
