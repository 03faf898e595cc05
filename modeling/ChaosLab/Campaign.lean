import ChaosLab.Fault

/-! Campaign definitions and the check they have to pass. -/

set_option autoImplicit false

namespace ChaosLab

inductive TargetKind where
  | process | worker | coordinator | transportProxy | persistenceFile | resource | device
deriving DecidableEq, Repr

structure TargetSpec where
  id : TargetId := {}
  kind : TargetKind := .process
  name : Bytes := []
  executable : Bytes := []
  arguments : List Bytes := []
  environment : Fields := ∅
  tempDir : Bytes := []
  ownsProcess : Bool := false
  restartBudget : Int32 := 0
deriving DecidableEq

structure Precondition where
  name : Bytes := []
  description : Bytes := []
  target : TargetId := {}
  stateName : Bytes := []
deriving DecidableEq

inductive CleanupActionKind where
  | killProcess | closeSocket | deleteFile | rmdir | freeAllocation | unspecified
deriving DecidableEq, Repr

structure CleanupAction where
  kind : CleanupActionKind := .unspecified
  target : TargetId := {}
  payload : Bytes := []
  optional : Bool := false
deriving DecidableEq

structure ResourceEnvelope where
  maxChildProcesses : Int32 := 32
  maxHostAllocationBytes : UInt64 := 0
  maxDeviceAllocationBytes : UInt64 := 0
  maxTempDiskBytes : UInt64 := 512 * 1024 * 1024
  maxOpenSockets : Int32 := 64
  maxRestarts : Int32 := 128
  allowedExecutables : List Bytes := []
  allowedTempRoot : Bytes := []
  allowedPids : List UInt64 := []
deriving DecidableEq

def ResourceEnvelope.validate (envelope : ResourceEnvelope) : Bool :=
  if envelope.maxChildProcesses < 1 then false
  else if envelope.maxRestarts < 1 then false
  else if envelope.maxOpenSockets < 1 then false
  else if envelope.allowedTempRoot ≠ [] ∧ 512 < envelope.allowedTempRoot.length then false
  else true

inductive EvidencePolicy where
  | recordVerbose | recordCondensed | recordNone
deriving DecidableEq, Repr

structure ReplayPolicy where
  allowPlanReplay : Bool := true
  allowEvidenceReplay : Bool := true
  allowCompare : Bool := true
deriving DecidableEq

inductive AssertionKind where
  | assertAccepted | assertRejected | assertState | assertTerminal | assertNotTerminal
  | assertExactlyOneAuthority | assertNoStaleMutation | assertNoDoubleCommit | assertNoLeak
  | assertAccountingZero | assertDigestEqual | assertDigestDifferent | assertRecoveryComplete
  | assertProcessExit | assertProcessAlive | assertResourceBaseline
  | last
deriving DecidableEq, Repr

structure AssertionSpec where
  id : AssertionId := {}
  kind : AssertionKind := .assertState
  description : Bytes := []
  params : Fields := ∅
  required : Bool := true
deriving DecidableEq

structure ChaosCampaign where
  id : CampaignId := {}
  seed : UInt64 := 0
  generation : CampaignGeneration := {}
  purpose : Bytes := []
  targets : List TargetSpec := []
  preconditions : List Precondition := []
  faultSchedule : List FaultSpec := []
  assertions : List AssertionSpec := []
  cleanupActions : List CleanupAction := []
  envelope : ResourceEnvelope := {}
  evidencePolicy : EvidencePolicy := .recordVerbose
  replayPolicy : ReplayPolicy := {}
  repetitionCount : Int32 := 1
deriving DecidableEq

/-- The id is that of a target of the list. -/
def Owned (targets : List TargetSpec) (id : TargetId) : Prop :=
  ∃ target ∈ targets, target.id = id

instance (targets : List TargetSpec) (id : TargetId) : Decidable (Owned targets id) :=
  inferInstanceAs (Decidable (∃ target ∈ targets, target.id = id))

namespace ChaosCampaign

/-- The pass over the targets: each one is compared with those after it. -/
def validateTargets : List TargetSpec → Except Bytes Unit
  | [] => .ok ()
  | target :: rest =>
      if rest.any fun later => target.id = later.id then
        .error (ascii "duplicate target id: " ++ target.id.str)
      else if target.kind = .process ∧ target.executable = [] then
        .error (ascii "process target '" ++ target.name ++ ascii "' has no executable")
      else validateTargets rest

/-- The inner pass over the targets of one fault. Its primary target is not looked at. -/
def validateFaultTargets (targets : List TargetSpec) : List TargetId → Except Bytes Unit
  | [] => .ok ()
  | id :: rest =>
      if targets.any fun target => target.id = id then validateFaultTargets targets rest
      else .error (ascii "fault targets non-owned target: " ++ id.str)

def validateFaults (targets : List TargetSpec) : List FaultSpec → Except Bytes Unit
  | [] => .ok ()
  | fault :: rest =>
      match validateFaultTargets targets fault.targets with
      | .error error => .error error
      | .ok () => validateFaults targets rest

/-- `validate`, with the text it leaves in `error`. -/
def validate (campaign : ChaosCampaign) : Except Bytes Unit :=
  if !campaign.envelope.validate then .error (ascii "resource envelope invalid")
  else if campaign.seed = 0 then .error (ascii "deterministic seed must be non-zero")
  else if campaign.repetitionCount < 1 then .error (ascii "repetition_count must be >= 1")
  else
    match validateTargets campaign.targets with
    | .error error => .error error
    | .ok () => validateFaults campaign.targets campaign.faultSchedule

end ChaosCampaign

end ChaosLab
