import ChaosLab.IdentityProperties
import ChaosLab.Scenario
import ChaosLab.Foundation.OrderedMap

/-! What the evaluator makes of the assertions a builder declares, and when its
verdict agrees with the texts it reports. -/

set_option autoImplicit false

namespace ChaosLab

open Foundation

namespace AssertionSpec

theorem param_setParam (spec : AssertionSpec) (key value other : Bytes) :
    (spec.setParam key value).param other = if key = other then some value else spec.param other :=
  getElem?_insert_ite _ _ _ _

@[simp] theorem kind_setParam (spec : AssertionSpec) (key value : Bytes) :
    (spec.setParam key value).kind = spec.kind := rfl

end AssertionSpec

theorem specTarget_setParam (spec : AssertionSpec) (t : TargetId) :
    specTarget (spec.setParam (ascii "target") t.str) = t := by
  simp [specTarget, AssertionSpec.param_setParam]

theorem specTarget_of_none {spec : AssertionSpec} (unnamed : spec.param (ascii "target") = none) :
    specTarget spec = kGlobal := by
  simp [specTarget, unnamed, kGlobal]

theorem status_eq_passed_iff (spec : AssertionSpec) (facts : RunFacts) (phase : Bytes) :
    (evaluateAssertion spec facts phase).status = .passed ↔ (judge facts spec.kind).pass = true := by
  unfold evaluateAssertion
  cases verdict : (judge facts spec.kind).pass with
  | false => simp [verdict]
  | true => simp [verdict]

namespace ScenarioBuilder

theorem newAssertion_kind (builder : ScenarioBuilder) (k : AssertionKind) (t : TargetId)
    (params : Fields) : (builder.newAssertion k t params).kind = k := by
  unfold newAssertion
  by_cases global : t = kGlobal
  · simp [global]
  · simp [global]

/-- The id of the target gets through the text of the parameters. The null id is
not written, and read back from its absence. -/
theorem specTarget_newAssertion (builder : ScenarioBuilder) (k : AssertionKind) (t : TargetId)
    {params : Fields} (unnamed : params[ascii "target"]? = none) :
    specTarget (builder.newAssertion k t params) = t := by
  unfold newAssertion
  by_cases global : t = kGlobal
  · rw [if_neg (not_not.mpr global), global]
    exact specTarget_of_none unnamed
  · rw [if_pos global]
    exact specTarget_setParam _ t

theorem param_newAssertion (builder : ScenarioBuilder) (k : AssertionKind) (t : TargetId)
    (params : Fields) {key : Bytes} (other : ascii "target" ≠ key) :
    (builder.newAssertion k t params).param key = params[key]? := by
  unfold newAssertion
  by_cases global : t = kGlobal
  · rw [if_neg (not_not.mpr global)]
    rfl
  · rw [if_pos global, AssertionSpec.param_setParam, if_neg other]
    rfl

/-- A declared state is judged by the expectation among the facts. The declared
one stays in the parameters of the assertion. -/
theorem assertState_judged (builder : ScenarioBuilder) (t : TargetId) (expect : Bytes)
    (facts : RunFacts) (phase : Bytes) :
    ∃ spec, (builder.assertState t expect).s.campaign.assertions =
        builder.s.campaign.assertions ++ [spec] ∧
      spec.param (ascii "state") = some expect ∧
      (evaluateAssertion spec facts phase).target = t ∧
      (evaluateAssertion spec facts phase).expected = facts.expectedState ∧
      ((evaluateAssertion spec facts phase).status = .passed ↔
        facts.state = facts.expectedState) := by
  let params : Fields := (∅ : Fields).insert (ascii "state") expect
  let stepped := builder.addStep .assertState t params
  have kind := stepped.newAssertion_kind .assertState t params
  refine ⟨stepped.newAssertion .assertState t params, rfl, ?_, ?_, ?_, ?_⟩
  · rw [param_newAssertion _ _ _ _ (by decide)]
    exact Std.ExtTreeMap.getElem?_insert_self
  · apply specTarget_newAssertion
    rw [getElem?_insert_ite, if_neg (by decide)]
    exact Std.ExtTreeMap.getElem?_empty
  · unfold evaluateAssertion
    rw [kind]
    rfl
  · rw [status_eq_passed_iff, kind]
    exact decide_eq_true_iff

/-- The worker is in the declared state, and the assertion fails. -/
theorem assertState_overruled_by_facts :
    ¬ ∀ spec ∈ ((new 7).assertState ⟨2⟩ (ascii "rejected")).s.campaign.assertions,
      let result := evaluateAssertion spec { state := ascii "rejected" } []
      result.target = ⟨2⟩ ∧ result.expected = ascii "rejected" ∧
        (result.status = .passed ↔ ascii "rejected" = ascii "rejected") := by
  intro judged
  have added := judged _ (List.mem_singleton.mpr rfl)
  have expected : [] = ascii "rejected" := added.2.1
  cases expected

end ScenarioBuilder

section Agreement

/-- The observed text of a result meets the expected text, as texts of this kind
are read. -/
def Satisfies (expected observed : Bytes) : AssertionKind → Prop
  | .assertAccepted | .assertRejected | .assertState | .assertTerminal | .assertNoStaleMutation
  | .assertNoDoubleCommit | .assertNoLeak | .assertDigestEqual => observed = expected
  | .assertNotTerminal => observed ≠ ascii "terminal"
  | .assertExactlyOneAuthority => observed = ascii "authority_count=1"
  | .assertAccountingZero => observed = ascii "accounting=0"
  | .assertDigestDifferent => ∀ digest, expected = ascii "different_from=" ++ digest →
      observed ≠ digest
  | .assertRecoveryComplete => observed = ascii "complete"
  | .assertProcessExit => ∃ code, observed = ascii "exited(" ++ toStringInt code ++ ascii ")"
  | .assertProcessAlive => observed = ascii "alive"
  | .assertResourceBaseline => ∃ value, observed =
      ascii "after=" ++ toString value ++ ascii " baseline=" ++ toString value
  | .last => False

/-- What the reported values are to be among the facts. -/
def FactsAgree (facts : RunFacts) : AssertionKind → Prop
  | .assertExactlyOneAuthority => facts.authorityCount = 1
  | .assertAccountingZero => facts.accounting = 0
  | .assertResourceBaseline => facts.resourceAfter = facts.resourceBaseline
  | .assertState => facts.state = facts.expectedState
  | .assertDigestEqual => facts.digestActual = facts.digestExpected
  | .assertDigestDifferent => facts.digestActual ≠ facts.digestExpected
  | _ => True

/-- A flag that says a number is right is only set where it is. -/
def FlagsAgree (facts : RunFacts) : AssertionKind → Prop
  | .assertAccountingZero => facts.accountingZero = true → facts.accounting = 0
  | .assertResourceBaseline => facts.resourceBaselineOk = true →
      facts.resourceAfter = facts.resourceBaseline
  | _ => True

theorem accounting_text_iff {value : UInt64} :
    ascii "accounting=" ++ toString value = ascii "accounting=0" ↔ value = 0 := by
  have zero : ascii "accounting=0" = ascii "accounting=" ++ toString 0 := by decide
  rw [zero, List.append_cancel_left_eq, toString_injective.eq_iff]

/-- The two numbers of the text are apart: the first one ends at the space. -/
theorem baseline_text_iff {after baseline : UInt64} :
    (∃ value, ascii "after=" ++ toString after ++ ascii " baseline=" ++ toString baseline =
      ascii "after=" ++ toString value ++ ascii " baseline=" ++ toString value) ↔
      after = baseline := by
  constructor
  · rintro ⟨value, same⟩
    simp only [List.append_assoc, List.append_cancel_left_eq] at same
    have spaced : ascii " baseline=" = 0x20 :: ascii "baseline=" := rfl
    rw [spaced, List.cons_append, List.cons_append] at same
    have cut := congrArg (cutAt 0x20) same
    have nondigit : isdigit 0x20 = false := by decide
    rw [cutAt_append (notMem_toString nondigit after), cutAt_append (notMem_toString nondigit value)]
      at cut
    obtain ⟨first, second⟩ := Prod.mk.inj (Option.some.inj cut)
    rw [toString_injective first, toString_injective (List.append_cancel_left second)]
  · rintro rfl
    exact ⟨after, rfl⟩

/-- A judgement that passes reports texts and values that agree, for the two
kinds with a flag of their own exactly where the flag agrees with the numbers. -/
theorem judge_agrees_iff (facts : RunFacts) (kind : AssertionKind) :
    ((judge facts kind).pass = true →
      Satisfies (judge facts kind).expected (judge facts kind).observed kind ∧
        FactsAgree facts kind) ↔ FlagsAgree facts kind := by
  cases kind with
  | assertAccountingZero =>
      simp only [judge, Satisfies, FactsAgree, FlagsAgree, accounting_text_iff, and_self]
  | assertResourceBaseline =>
      simp only [judge, Satisfies, FactsAgree, FlagsAgree, baseline_text_iff, and_self]
  | assertExactlyOneAuthority =>
      refine iff_of_true (fun passed => ?_) trivial
      have one : facts.authorityCount = 1 := of_decide_eq_true passed
      refine ⟨?_, one⟩
      simp only [judge, Satisfies, one]
      decide
  | assertState | assertDigestEqual =>
      refine iff_of_true (fun passed => ?_) trivial
      have same := decide_eq_true_iff.mp passed
      exact ⟨same, same⟩
  | assertDigestDifferent =>
      refine iff_of_true (fun passed => ?_) trivial
      have apart : facts.digestActual ≠ facts.digestExpected := of_decide_eq_true passed
      refine ⟨?_, apart⟩
      rintro digest named rfl
      exact apart (List.append_cancel_left named).symm
  | assertNotTerminal =>
      refine iff_of_true (fun passed => ⟨?_, trivial⟩) trivial
      have active : facts.terminal = false := by simpa [judge] using passed
      simp only [judge, Satisfies, active]
      decide
  | assertProcessExit =>
      exact iff_of_true (fun passed => ⟨⟨facts.processExitCode, if_pos passed⟩, trivial⟩) trivial
  | assertAccepted | assertRejected | assertTerminal | assertRecoveryComplete
  | assertProcessAlive =>
      exact iff_of_true (fun passed => ⟨if_pos passed, trivial⟩) trivial
  | assertNoStaleMutation | assertNoDoubleCommit | assertNoLeak =>
      refine iff_of_true (fun passed => ⟨if_neg ?_, trivial⟩) trivial
      simpa [judge] using passed
  | last => exact iff_of_true (fun passed => by cases passed) trivial

/-- The verdict and the texts of a result agree exactly where a flag for a number
is only set when the number is right. -/
theorem evaluateAssertion_agrees_iff (spec : AssertionSpec) (facts : RunFacts) (phase : Bytes) :
    ((evaluateAssertion spec facts phase).status = .passed →
      Satisfies (evaluateAssertion spec facts phase).expected
          (evaluateAssertion spec facts phase).observed spec.kind ∧
        FactsAgree facts spec.kind) ↔ FlagsAgree facts spec.kind := by
  rw [status_eq_passed_iff]
  exact judge_agrees_iff facts spec.kind

/-- The flag has its default, and the number is reported as it is. -/
theorem accounting_of_five_passes :
    let result := evaluateAssertion { kind := .assertAccountingZero } { accounting := 5 } []
    result.status = .passed ∧ result.expected = ascii "accounting==0" ∧
      result.observed = ascii "accounting=5" ∧
      ¬ Satisfies result.expected result.observed .assertAccountingZero := by
  refine ⟨by decide, by decide, by decide, ?_⟩
  unfold Satisfies
  decide

end Agreement

end ChaosLab
