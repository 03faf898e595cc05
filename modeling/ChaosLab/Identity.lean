import ChaosLab.Text
import ChaosLab.Foundation.Delimited

/-! Identifiers: a 64-bit value, typed by what it identifies. -/

set_option autoImplicit false

namespace ChaosLab

open Foundation

inductive IdKind where
  | campaign | scenario | fault | injection | assertion | evidence | target
  | process | worker | workerBoot | node | device | request | operation
  | attempt | dispatch | recovery | coordinatorEpoch | attemptGeneration
  | targetGeneration | campaignGeneration
  | last
deriving DecidableEq, Repr

def idKindName : IdKind → Bytes
  | .campaign => ascii "campaign"
  | .scenario => ascii "scenario"
  | .fault => ascii "fault"
  | .injection => ascii "injection"
  | .assertion => ascii "assertion"
  | .evidence => ascii "evidence"
  | .target => ascii "target"
  | .process => ascii "process"
  | .worker => ascii "worker"
  | .workerBoot => ascii "workerboot"
  | .node => ascii "node"
  | .device => ascii "device"
  | .request => ascii "request"
  | .operation => ascii "operation"
  | .attempt => ascii "attempt"
  | .dispatch => ascii "dispatch"
  | .recovery => ascii "recovery"
  | .coordinatorEpoch => ascii "coordinatorepoch"
  | .attemptGeneration => ascii "attemptgeneration"
  | .targetGeneration => ascii "targetgeneration"
  | .campaignGeneration => ascii "campaigngeneration"
  | .last => ascii "last"

structure Id (kind : IdKind) where
  value : UInt64 := 0
deriving DecidableEq

def Id.toString {kind : IdKind} (id : Id kind) : Bytes := toHex id.value

/-- The form `kind:hex`. -/
def Id.str {kind : IdKind} (id : Id kind) : Bytes :=
  idKindName kind ++ [Byte.colon] ++ toHex id.value

/-- `Id::parse`: hexadecimal digits, after the name of this kind and a colon if
there is a colon at all. -/
def Id.parse {kind : IdKind} (text : Bytes) : Option (Id kind) :=
  match cutAt Byte.colon text with
  | none => (fromHex text).map fun value => { value }
  | some (name, digits) =>
      if name ≠ idKindName kind then none else (fromHex digits).map fun value => { value }

abbrev CampaignId := Id .campaign
abbrev FaultId := Id .fault
abbrev InjectionId := Id .injection
abbrev AssertionId := Id .assertion
abbrev TargetId := Id .target
abbrev WorkerId := Id .worker
abbrev WorkerBootId := Id .workerBoot
abbrev AttemptId := Id .attempt
abbrev DispatchId := Id .dispatch
abbrev CoordinatorEpoch := Id .coordinatorEpoch
abbrev AttemptGeneration := Id .attemptGeneration
abbrev TargetGeneration := Id .targetGeneration
abbrev CampaignGeneration := Id .campaignGeneration

end ChaosLab
