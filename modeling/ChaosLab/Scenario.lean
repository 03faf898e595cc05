import ChaosLab.Assertions

/-! Scenarios, and the builder that puts them together call by call. -/

set_option autoImplicit false

namespace ChaosLab

inductive ScenarioOp where
  | startProcess | waitForRegistration | dispatchWork | captureAuthority
  | injectFault | killProcess | closeSocket | corruptFrame | truncateFile
  | reduceCapacity | allocateMemory | releaseMemory | restartProcess
  | rollEpoch | replayStaleMessage | waitForState | assertState
  | assertRejected | assertNoLeak | assertExactlyOneAuthority
  | save | reload | replay | cleanup | nop
deriving DecidableEq, Repr

structure ScenarioStep where
  op : ScenarioOp := .nop
  target : TargetId := {}
  fault : FaultCategory := .processTermination
  state : Bytes := []
  params : Fields := ∅
deriving DecidableEq

structure Scenario where
  campaign : ChaosCampaign := {}
  steps : List ScenarioStep := []
deriving DecidableEq

def kGlobal : TargetId := ⟨0⟩

structure ScenarioBuilder where
  s : Scenario := {}
  targetCounter : UInt64 := 1
  faultCounter : UInt64 := 1
  assertionCounter : UInt64 := 1
  ownSeed : UInt64
deriving DecidableEq

/-- The scope `inject_fault` gives to a fault. -/
def injectedScope : FaultCategory → FaultScope
  | .socketClose | .socketReset | .socketHalfClose | .connectionDrop | .frameTruncation
  | .frameCorruption | .frameDuplication | .frameReorder | .frameDelay => .connection
  | .staleEpoch | .staleBoot | .staleAttempt | .staleGeneration | .staleDispatch => .authority
  | .duplicateMessage | .conflictingDuplicate => .protocol
  | .partialFileWrite | .persistenceTruncation | .persistenceCorruption | .badChecksum
  | .badVersion | .diskWriteFailure => .persistence
  | .hostMemoryPressure => .hostMemory
  | .deviceMemoryPressure => .deviceMemory
  | .resourceExhaustion => .reservation
  | .reservationExhaustion => .reservation
  | .capacityReduction => .device
  | .cudaApplicationFailure | .cudaVerificationFailure | .cudaAllocationFailure => .accelerator
  | .coordinatorDeath => .coordinator
  | .workerDeath => .worker
  | _ => .process

namespace ScenarioBuilder

def new (seed : UInt64) : ScenarioBuilder :=
  { s.campaign.seed := seed, ownSeed := seed }

/-- The member declared `const` is written too. -/
def seed (builder : ScenarioBuilder) (seed : UInt64) : ScenarioBuilder :=
  { builder with ownSeed := seed, s.campaign.seed := seed }

def purpose (builder : ScenarioBuilder) (purpose : Bytes) : ScenarioBuilder :=
  { builder with s.campaign.purpose := purpose }

def newTargetId (builder : ScenarioBuilder) (owned : Bool) : TargetId × ScenarioBuilder :=
  (⟨(if owned then (1 : UInt64) else 0) <<< 63 ||| builder.targetCounter⟩,
    { builder with targetCounter := builder.targetCounter + 1 })

def addStep (builder : ScenarioBuilder) (op : ScenarioOp) (t : TargetId) (params : Fields := ∅) :
    ScenarioBuilder :=
  { builder with s.steps := builder.s.steps ++ [{ op := op, target := t, params := params }] }

def addFault (builder : ScenarioBuilder) (c : FaultCategory) (scope : FaultScope) (t : TargetId)
    (params : Fields) : ScenarioBuilder :=
  let fault : FaultSpec := {
    id := ⟨builder.faultCounter⟩
    category := c
    source := .injected
    scope := scope
    severity := .high
    timing := .atEvent
    target := t
    targets := [t]
    params := params }
  { builder with
    faultCounter := builder.faultCounter + 1
    s.campaign.faultSchedule := builder.s.campaign.faultSchedule ++ [fault] }

/-- The assertion `add_assertion` adds. -/
def newAssertion (builder : ScenarioBuilder) (k : AssertionKind) (t : TargetId)
    (params : Fields) : AssertionSpec :=
  let assertion : AssertionSpec := {
    id := ⟨builder.assertionCounter⟩
    kind := k
    params := params
    description := assertionKindName k }
  if t ≠ kGlobal then assertion.setParam (ascii "target") t.str else assertion

def addAssertion (builder : ScenarioBuilder) (k : AssertionKind) (t : TargetId)
    (params : Fields) : ScenarioBuilder :=
  { builder with
    assertionCounter := builder.assertionCounter + 1
    s.campaign.assertions := builder.s.campaign.assertions ++ [builder.newAssertion k t params] }

def envelope (builder : ScenarioBuilder) (env : ResourceEnvelope) : ScenarioBuilder :=
  { builder with s.campaign.envelope := env }

/-- What the `target_*` calls share: a fresh id, and a target that has it. -/
def declare (builder : ScenarioBuilder) (describe : TargetId → TargetSpec) : ScenarioBuilder :=
  let (id, builder) := builder.newTargetId true
  { builder with s.campaign.targets := builder.s.campaign.targets ++ [describe id] }

def targetProcess (builder : ScenarioBuilder) (name executable : Bytes) (args : List Bytes) :
    ScenarioBuilder :=
  builder.declare fun id => {
    id := id, kind := .process, name := name, executable := executable, arguments := args
    ownsProcess := true }

def targetWorker (builder : ScenarioBuilder) (name executable : Bytes) (args : List Bytes) :
    ScenarioBuilder :=
  builder.declare fun id => {
    id := id, kind := .worker, name := name, executable := executable, arguments := args
    ownsProcess := true }

def targetCoordinator (builder : ScenarioBuilder) (name executable : Bytes) (args : List Bytes) :
    ScenarioBuilder :=
  builder.declare fun id => {
    id := id, kind := .coordinator, name := name, executable := executable, arguments := args
    ownsProcess := true }

def targetProxy (builder : ScenarioBuilder) (name executable : Bytes) : ScenarioBuilder :=
  builder.declare fun id => {
    id := id, kind := .transportProxy, name := name, executable := executable }

def targetPersistence (builder : ScenarioBuilder) (name path : Bytes) : ScenarioBuilder :=
  builder.declare fun id => {
    id := id, kind := .persistenceFile, name := name, tempDir := path }

def targetDevice (builder : ScenarioBuilder) (name kind : Bytes) : ScenarioBuilder :=
  builder.declare fun id => {
    id := id, kind := .device, name := name, executable := kind }

section Schedule

variable (builder : ScenarioBuilder) (t : TargetId)

def startProcess : ScenarioBuilder := builder.addStep .startProcess t
def waitForRegistration : ScenarioBuilder := builder.addStep .waitForRegistration t
def dispatchWork : ScenarioBuilder := builder.addStep .dispatchWork t
def captureAuthority : ScenarioBuilder := builder.addStep .captureAuthority t

def killProcess : ScenarioBuilder :=
  (builder.addStep .killProcess t).addFault .processTermination .process t ∅

def closeSocket : ScenarioBuilder :=
  (builder.addStep .closeSocket t).addFault .socketClose .connection t ∅

def corruptFrame : ScenarioBuilder :=
  (builder.addStep .corruptFrame t).addFault .frameCorruption .connection t ∅

def truncateFile (offset : Int32) : ScenarioBuilder :=
  let params : Fields := (∅ : Fields).insert (ascii "offset") (toStringInt offset)
  (builder.addStep .truncateFile t params).addFault .persistenceTruncation .file t params

def reduceCapacity (percent : Int32) : ScenarioBuilder :=
  let params : Fields := (∅ : Fields).insert (ascii "percent") (toStringInt percent)
  (builder.addStep .reduceCapacity t params).addFault .capacityReduction .device t params

def allocateMemory (bytes : UInt64) : ScenarioBuilder :=
  builder.addStep .allocateMemory t ((∅ : Fields).insert (ascii "bytes") (toString bytes))

def releaseMemory : ScenarioBuilder := builder.addStep .releaseMemory t
def restartProcess : ScenarioBuilder := builder.addStep .restartProcess t
def rollEpoch : ScenarioBuilder := builder.addStep .rollEpoch t
def replayStaleMessage : ScenarioBuilder := builder.addStep .replayStaleMessage t

def waitForState (state : Bytes) : ScenarioBuilder :=
  builder.addStep .waitForState t ((∅ : Fields).insert (ascii "state") state)

def save : ScenarioBuilder := builder.addStep .save t
def reload : ScenarioBuilder := builder.addStep .reload t
def replay : ScenarioBuilder := builder.addStep .replay t
def cleanup : ScenarioBuilder := builder.addStep .cleanup t

end Schedule

def injectFault (builder : ScenarioBuilder) (c : FaultCategory) (t : TargetId) :
    ScenarioBuilder :=
  let params : Fields := (∅ : Fields).insert (ascii "category") (faultCategoryName c)
  (builder.addStep .injectFault t params).addFault c (injectedScope c) t ∅

section Assertions

variable (builder : ScenarioBuilder) (t : TargetId)

def assertState (expect : Bytes) : ScenarioBuilder :=
  let params : Fields := (∅ : Fields).insert (ascii "state") expect
  (builder.addStep .assertState t params).addAssertion .assertState t params

def assertRejected (what : Bytes) : ScenarioBuilder :=
  let params : Fields := (∅ : Fields).insert (ascii "what") what
  (builder.addStep .assertRejected t params).addAssertion .assertRejected t params

def assertNoLeak : ScenarioBuilder := builder.addAssertion .assertNoLeak t ∅

def assertExactlyOneAuthority : ScenarioBuilder :=
  builder.addAssertion .assertExactlyOneAuthority kGlobal ∅

def assertNoDoubleCommit : ScenarioBuilder :=
  builder.addAssertion .assertNoDoubleCommit kGlobal ∅

def assertProcessAlive : ScenarioBuilder := builder.addAssertion .assertProcessAlive t ∅
def assertProcessExit : ScenarioBuilder := builder.addAssertion .assertProcessExit t ∅
def assertAccountingZero : ScenarioBuilder := builder.addAssertion .assertAccountingZero t ∅

def assertRecoveryComplete : ScenarioBuilder :=
  builder.addAssertion .assertRecoveryComplete t ∅

end Assertions

def build (builder : ScenarioBuilder) : Scenario :=
  let s := builder.s
  let s := if s.campaign.id.value = 0 then
    { s with campaign.id := ⟨builder.ownSeed ^^^ 0xCA11CA11CA11CA11⟩ } else s
  if s.campaign.generation.value = 0 then { s with campaign.generation := ⟨1⟩ } else s

end ScenarioBuilder

/-- A call on a builder that returns the builder again. -/
inductive BuilderCall where
  | seed (s : UInt64)
  | purpose (p : Bytes)
  | targetProcess (name executable : Bytes) (args : List Bytes)
  | targetWorker (name executable : Bytes) (args : List Bytes)
  | targetCoordinator (name executable : Bytes) (args : List Bytes)
  | targetProxy (name executable : Bytes)
  | targetPersistence (name path : Bytes)
  | targetDevice (name kind : Bytes)
  | startProcess (t : TargetId)
  | waitForRegistration (t : TargetId)
  | dispatchWork (t : TargetId)
  | captureAuthority (t : TargetId)
  | injectFault (c : FaultCategory) (t : TargetId)
  | killProcess (t : TargetId)
  | closeSocket (t : TargetId)
  | corruptFrame (t : TargetId)
  | truncateFile (t : TargetId) (offset : Int32)
  | reduceCapacity (t : TargetId) (percent : Int32)
  | allocateMemory (t : TargetId) (bytes : UInt64)
  | releaseMemory (t : TargetId)
  | restartProcess (t : TargetId)
  | rollEpoch (t : TargetId)
  | replayStaleMessage (t : TargetId)
  | waitForState (t : TargetId) (state : Bytes)
  | save (t : TargetId)
  | reload (t : TargetId)
  | replay (t : TargetId)
  | cleanup (t : TargetId)
  | assertState (t : TargetId) (expect : Bytes)
  | assertRejected (t : TargetId) (what : Bytes)
  | assertNoLeak (t : TargetId)
  | assertExactlyOneAuthority
  | assertNoDoubleCommit
  | assertProcessAlive (t : TargetId)
  | assertProcessExit (t : TargetId)
  | assertAccountingZero (t : TargetId)
  | assertRecoveryComplete (t : TargetId)
  | envelope (env : ResourceEnvelope)
deriving DecidableEq

namespace ScenarioBuilder

def apply (builder : ScenarioBuilder) : BuilderCall → ScenarioBuilder
  | .seed s => builder.seed s
  | .purpose p => builder.purpose p
  | .targetProcess name executable args => builder.targetProcess name executable args
  | .targetWorker name executable args => builder.targetWorker name executable args
  | .targetCoordinator name executable args => builder.targetCoordinator name executable args
  | .targetProxy name executable => builder.targetProxy name executable
  | .targetPersistence name path => builder.targetPersistence name path
  | .targetDevice name kind => builder.targetDevice name kind
  | .startProcess t => builder.startProcess t
  | .waitForRegistration t => builder.waitForRegistration t
  | .dispatchWork t => builder.dispatchWork t
  | .captureAuthority t => builder.captureAuthority t
  | .injectFault c t => builder.injectFault c t
  | .killProcess t => builder.killProcess t
  | .closeSocket t => builder.closeSocket t
  | .corruptFrame t => builder.corruptFrame t
  | .truncateFile t offset => builder.truncateFile t offset
  | .reduceCapacity t percent => builder.reduceCapacity t percent
  | .allocateMemory t bytes => builder.allocateMemory t bytes
  | .releaseMemory t => builder.releaseMemory t
  | .restartProcess t => builder.restartProcess t
  | .rollEpoch t => builder.rollEpoch t
  | .replayStaleMessage t => builder.replayStaleMessage t
  | .waitForState t state => builder.waitForState t state
  | .save t => builder.save t
  | .reload t => builder.reload t
  | .replay t => builder.replay t
  | .cleanup t => builder.cleanup t
  | .assertState t expect => builder.assertState t expect
  | .assertRejected t what => builder.assertRejected t what
  | .assertNoLeak t => builder.assertNoLeak t
  | .assertExactlyOneAuthority => builder.assertExactlyOneAuthority
  | .assertNoDoubleCommit => builder.assertNoDoubleCommit
  | .assertProcessAlive t => builder.assertProcessAlive t
  | .assertProcessExit t => builder.assertProcessExit t
  | .assertAccountingZero t => builder.assertAccountingZero t
  | .assertRecoveryComplete t => builder.assertRecoveryComplete t
  | .envelope env => builder.envelope env

def applyAll (builder : ScenarioBuilder) (calls : List BuilderCall) : ScenarioBuilder :=
  calls.foldl apply builder

end ScenarioBuilder

end ChaosLab
