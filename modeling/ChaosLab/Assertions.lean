import ChaosLab.Campaign

/-! Assertions of a campaign, and their evaluation against the facts of a run. -/

set_option autoImplicit false

namespace ChaosLab

def assertionKindName : AssertionKind → Bytes
  | .assertAccepted => ascii "accepted"
  | .assertRejected => ascii "rejected"
  | .assertState => ascii "state"
  | .assertTerminal => ascii "terminal"
  | .assertNotTerminal => ascii "not_terminal"
  | .assertExactlyOneAuthority => ascii "exactly_one_authority"
  | .assertNoStaleMutation => ascii "no_stale_mutation"
  | .assertNoDoubleCommit => ascii "no_double_commit"
  | .assertNoLeak => ascii "no_leak"
  | .assertAccountingZero => ascii "accounting_zero"
  | .assertDigestEqual => ascii "digest_equal"
  | .assertDigestDifferent => ascii "digest_different"
  | .assertRecoveryComplete => ascii "recovery_complete"
  | .assertProcessExit => ascii "process_exit"
  | .assertProcessAlive => ascii "process_alive"
  | .assertResourceBaseline => ascii "resource_baseline"
  | .last => ascii "unknown"

inductive AssertionStatus where
  | unevaluated | passed | failed | skipped
deriving DecidableEq, Repr

namespace AssertionSpec

def setParam (spec : AssertionSpec) (key value : Bytes) : AssertionSpec :=
  { spec with params := spec.params.insert key value }

def param (spec : AssertionSpec) (key : Bytes) : Option Bytes := spec.params[key]?

end AssertionSpec

/-- What a campaign hands to the evaluator. The expected state and the expected
digest are facts too. -/
structure RunFacts where
  accepted : Bool := false
  rejected : Bool := false
  state : Bytes := []
  expectedState : Bytes := []
  authorityCount : Int32 := 0
  staleMutation : Bool := false
  doubleCommit : Bool := false
  leak : Bool := false
  accountingZero : Bool := true
  accounting : UInt64 := 0
  digestActual : Bytes := []
  digestExpected : Bytes := []
  recoveryComplete : Bool := false
  processExited : Bool := false
  processExitCode : Int32 := 0
  processAlive : Bool := false
  resourceAfter : UInt64 := 0
  resourceBaseline : UInt64 := 0
  resourceBaselineOk : Bool := true
  terminal : Bool := false
deriving DecidableEq

structure AssertionResult where
  id : AssertionId := {}
  kind : AssertionKind := .assertState
  expected : Bytes := []
  observed : Bytes := []
  target : TargetId := {}
  phase : Bytes := []
  status : AssertionStatus := .unevaluated
  explanation : Bytes := []
deriving DecidableEq

/-- The target a specification names; the null id if it names none, or none that
can be read. -/
def specTarget (spec : AssertionSpec) : TargetId :=
  match spec.param (ascii "target") with
  | none => {}
  | some text =>
      match Id.parse text with
      | some id => id
      | none => {}

/-- What one kind of assertion expects and observes, and whether it passes. -/
structure Judgement where
  expected : Bytes := []
  observed : Bytes := []
  pass : Bool := true
deriving DecidableEq

/-- The `switch` of `evaluate_assertion`. -/
def judge (facts : RunFacts) : AssertionKind → Judgement
  | .assertAccepted => {
      expected := ascii "accepted"
      observed := if facts.accepted then ascii "accepted" else ascii "rejected"
      pass := facts.accepted }
  | .assertRejected => {
      expected := ascii "rejected"
      observed := if facts.rejected then ascii "rejected" else ascii "accepted"
      pass := facts.rejected }
  | .assertState => {
      expected := facts.expectedState
      observed := facts.state
      pass := facts.state = facts.expectedState }
  | .assertTerminal => {
      expected := ascii "terminal"
      observed := if facts.terminal then ascii "terminal" else ascii "active"
      pass := facts.terminal }
  | .assertNotTerminal => {
      expected := ascii "not_terminal"
      observed := if facts.terminal then ascii "terminal" else ascii "active"
      pass := !facts.terminal }
  | .assertExactlyOneAuthority => {
      expected := ascii "authority_count==1"
      observed := ascii "authority_count=" ++ toStringInt facts.authorityCount
      pass := facts.authorityCount = 1 }
  | .assertNoStaleMutation => {
      expected := ascii "no_stale_mutation"
      observed :=
        if facts.staleMutation then ascii "stale_mutation_observed" else ascii "no_stale_mutation"
      pass := !facts.staleMutation }
  | .assertNoDoubleCommit => {
      expected := ascii "no_double_commit"
      observed := if facts.doubleCommit then ascii "double_commit" else ascii "no_double_commit"
      pass := !facts.doubleCommit }
  | .assertNoLeak => {
      expected := ascii "no_leak"
      observed := if facts.leak then ascii "leak_detected" else ascii "no_leak"
      pass := !facts.leak }
  | .assertAccountingZero => {
      expected := ascii "accounting==0"
      observed := ascii "accounting=" ++ toString facts.accounting
      pass := facts.accountingZero }
  | .assertDigestEqual => {
      expected := facts.digestExpected
      observed := facts.digestActual
      pass := facts.digestActual = facts.digestExpected }
  | .assertDigestDifferent => {
      expected := ascii "different_from=" ++ facts.digestExpected
      observed := facts.digestActual
      pass := facts.digestActual ≠ facts.digestExpected }
  | .assertRecoveryComplete => {
      expected := ascii "recovery_complete"
      observed := if facts.recoveryComplete then ascii "complete" else ascii "incomplete"
      pass := facts.recoveryComplete }
  | .assertProcessExit => {
      expected := ascii "process_exited"
      observed :=
        if facts.processExited then ascii "exited(" ++ toStringInt facts.processExitCode ++ ascii ")"
        else ascii "running"
      pass := facts.processExited }
  | .assertProcessAlive => {
      expected := ascii "process_alive"
      observed := if facts.processAlive then ascii "alive" else ascii "exited"
      pass := facts.processAlive }
  | .assertResourceBaseline => {
      expected := ascii "resource_after==baseline"
      observed := ascii "after=" ++ toString facts.resourceAfter ++ ascii " baseline=" ++
        toString facts.resourceBaseline
      pass := facts.resourceBaselineOk }
  | .last => { pass := false }

def evaluateAssertion (spec : AssertionSpec) (facts : RunFacts) (phase : Bytes) :
    AssertionResult :=
  let judgement := judge facts spec.kind
  { id := spec.id
    kind := spec.kind
    expected := judgement.expected
    observed := judgement.observed
    target := specTarget spec
    phase := phase
    status := if judgement.pass then .passed else .failed
    explanation := assertionKindName spec.kind ++ ascii " expected=\"" ++ judgement.expected ++
      ascii "\" observed=\"" ++ judgement.observed ++ ascii "\"" }

end ChaosLab
