import ChaosLab.ScenarioProperties

/-! The steps of a scenario that inject something and the faults of its campaign, side by
side. -/

set_option autoImplicit false

namespace ChaosLab

def ScenarioOp.injects : ScenarioOp → Bool
  | .injectFault | .killProcess | .closeSocket | .corruptFrame | .truncateFile
  | .reduceCapacity => true
  | _ => false

/-- The category that a step asks for: by name where it injects any fault, else by what it
does. -/
def ScenarioStep.Asks (step : ScenarioStep) (c : FaultCategory) : Prop :=
  match step.op with
  | .injectFault => step.params[ascii "category"]? = some (faultCategoryName c)
  | .killProcess => c = .processTermination
  | .closeSocket => c = .socketClose
  | .corruptFrame => c = .frameCorruption
  | .truncateFile => c = .persistenceTruncation
  | .reduceCapacity => c = .capacityReduction
  | _ => False

/-- The fault is the one the step injects. -/
structure Paired (step : ScenarioStep) (fault : FaultSpec) : Prop where
  target : step.target = fault.target
  targets : fault.targets = [fault.target]
  category : ∀ c, step.Asks c ↔ c = fault.category

section Categories

def faultCategories : List FaultCategory :=
  [.processTermination, .processCrash, .processStall, .coordinatorDeath, .workerDeath,
    .socketClose, .socketReset, .socketHalfClose, .connectionDrop, .frameTruncation,
    .frameCorruption, .frameDuplication, .frameReorder, .frameDelay, .staleEpoch, .staleBoot,
    .staleAttempt, .staleGeneration, .staleDispatch, .duplicateMessage, .conflictingDuplicate,
    .partialFileWrite, .persistenceTruncation, .persistenceCorruption, .badChecksum, .badVersion,
    .diskWriteFailure, .resourceExhaustion, .hostMemoryPressure, .deviceMemoryPressure,
    .reservationExhaustion, .capacityReduction, .cudaApplicationFailure,
    .cudaVerificationFailure, .cudaAllocationFailure, .dependencyFailure, .recoveryFailure,
    .rollbackFailure, .shutdownRace, .restartRace, .clockSkewSimulation, .invalidStateInjection,
    .last]

theorem mem_faultCategories (c : FaultCategory) : c ∈ faultCategories := by
  cases c <;> decide

theorem faultCategoryName_injective : Function.Injective faultCategoryName := by
  have distinct : (faultCategories.map faultCategoryName).Nodup := by decide +kernel
  intro left right same
  exact List.inj_on_of_nodup_map distinct (mem_faultCategories left) (mem_faultCategories right)
    same

end Categories

namespace ScenarioBuilder

/-- Between two calls, the injecting steps and the faults correspond one to one, in order. -/
def InStep (builder : ScenarioBuilder) : Prop :=
  List.Forall₂ Paired (builder.s.steps.filter (·.op.injects)) builder.s.campaign.faultSchedule

section Steps

variable {builder : ScenarioBuilder}

theorem InStep.addStep (inStep : builder.InStep) {op : ScenarioOp} (harmless : op.injects = false)
    (t : TargetId) (params : Fields) : (builder.addStep op t params).InStep := by
  unfold InStep ScenarioBuilder.addStep
  rw [List.filter_append, List.filter_cons_of_neg (by simpa using harmless), List.filter_nil,
    List.append_nil]
  exact inStep

theorem InStep.addAssertion (inStep : builder.InStep) (k : AssertionKind) (t : TargetId)
    (params : Fields) : (builder.addAssertion k t params).InStep := inStep

theorem InStep.inject (inStep : builder.InStep) {op : ScenarioOp} (injects : op.injects = true)
    {c : FaultCategory} {t : TargetId} {params : Fields}
    (asks : ∀ other,
      ({ op := op, target := t, params := params } : ScenarioStep).Asks other ↔ other = c)
    (scope : FaultScope) (faultParams : Fields) :
    ((builder.addStep op t params).addFault c scope t faultParams).InStep := by
  have steps : (builder.addStep op t params).s.steps.filter (·.op.injects) =
      builder.s.steps.filter (·.op.injects) ++ [{ op := op, target := t, params := params }] := by
    rw [ScenarioBuilder.addStep, List.filter_append, List.filter_singleton, injects]
    rfl
  have paired : Paired { op := op, target := t, params := params }
      { id := ⟨builder.faultCounter⟩, category := c, scope := scope, target := t, targets := [t],
        params := faultParams } := ⟨rfl, rfl, asks⟩
  change List.Forall₂ Paired ((builder.addStep op t params).s.steps.filter (·.op.injects)) _
  rw [steps]
  exact List.rel_append inStep (.cons paired .nil)

theorem asks_injectFault (c : FaultCategory) (t : TargetId) (other : FaultCategory) :
    ({ op := .injectFault, target := t,
       params := (∅ : Fields).insert (ascii "category") (faultCategoryName c) } :
      ScenarioStep).Asks other ↔ other = c := by
  have named : ((∅ : Fields).insert (ascii "category") (faultCategoryName c))[ascii "category"]? =
      some (faultCategoryName c) := Std.TreeMap.getElem?_insert_self
  change _ = some (faultCategoryName other) ↔ other = c
  rw [named, Option.some.injEq, faultCategoryName_injective.eq_iff, eq_comm]

/-- The step lemma. -/
theorem InStep.apply (inStep : builder.InStep) (call : BuilderCall) :
    (builder.apply call).InStep := by
  cases call with
  | seed s | purpose p | envelope env | targetProcess name executable args
  | targetWorker name executable args | targetCoordinator name executable args
  | targetProxy name executable | targetPersistence name path | targetDevice name kind =>
      exact inStep
  | assertNoLeak t | assertProcessAlive t | assertProcessExit t | assertAccountingZero t
  | assertRecoveryComplete t =>
      exact inStep.addAssertion _ t _
  | assertExactlyOneAuthority | assertNoDoubleCommit => exact inStep.addAssertion _ kGlobal _
  | startProcess t | waitForRegistration t | dispatchWork t | captureAuthority t
  | allocateMemory t bytes | releaseMemory t | restartProcess t | rollEpoch t
  | replayStaleMessage t | waitForState t state | save t | reload t | replay t | cleanup t =>
      exact inStep.addStep rfl t _
  | assertState t expect | assertRejected t what =>
      exact (inStep.addStep rfl t _).addAssertion _ t _
  | injectFault c t => exact inStep.inject rfl (asks_injectFault c t) _ _
  | killProcess t | closeSocket t | corruptFrame t | truncateFile t offset
  | reduceCapacity t percent =>
      exact inStep.inject rfl (fun _ => Iff.rfl) _ _

/-- The run lemma. -/
theorem InStep.applyAll (inStep : builder.InStep) (calls : List BuilderCall) :
    (builder.applyAll calls).InStep := by
  induction calls generalizing builder with
  | nil => exact inStep
  | cons call calls ih => exact ih (inStep.apply call)

theorem build_steps (builder : ScenarioBuilder) : builder.build.steps = builder.s.steps := by
  unfold build
  dsimp only
  split
  · split
    · rfl
    · rfl
  · split
    · rfl
    · rfl

end Steps

/-- Whatever is called on a builder, the injecting steps of the scenario and the faults of its
campaign stay in lock step. -/
theorem built_steps_paired (seed : UInt64) (calls : List BuilderCall) :
    let scenario := ((new seed).applyAll calls).build
    (scenario.steps.filter (·.op.injects)).length = scenario.campaign.faultSchedule.length ∧
      List.Forall₂ Paired (scenario.steps.filter (·.op.injects))
        scenario.campaign.faultSchedule := by
  intro scenario
  have start : (new seed).InStep := .nil
  have inStep := start.applyAll calls
  have paired : List.Forall₂ Paired (scenario.steps.filter (·.op.injects))
      scenario.campaign.faultSchedule := by
    obtain ⟨id, generation, built⟩ := build_campaign ((new seed).applyAll calls)
    unfold scenario
    rw [build_steps, built]
    exact inStep
  exact ⟨paired.length_eq, paired⟩

end ScenarioBuilder

end ChaosLab
