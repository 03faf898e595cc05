import ChaosLab.Evidence
import ChaosLab.Identity

/-! Faults as campaigns describe them. -/

set_option autoImplicit false

namespace ChaosLab

inductive FaultCategory where
  | processTermination | processCrash | processStall | coordinatorDeath | workerDeath
  | socketClose | socketReset | socketHalfClose | connectionDrop
  | frameTruncation | frameCorruption | frameDuplication | frameReorder | frameDelay
  | staleEpoch | staleBoot | staleAttempt | staleGeneration | staleDispatch
  | duplicateMessage | conflictingDuplicate
  | partialFileWrite | persistenceTruncation | persistenceCorruption | badChecksum | badVersion
  | diskWriteFailure
  | resourceExhaustion | hostMemoryPressure | deviceMemoryPressure | reservationExhaustion
  | capacityReduction
  | cudaApplicationFailure | cudaVerificationFailure | cudaAllocationFailure
  | dependencyFailure | recoveryFailure | rollbackFailure
  | shutdownRace | restartRace | clockSkewSimulation | invalidStateInjection
  | last
deriving DecidableEq, Repr

def faultCategoryName : FaultCategory → Bytes
  | .processTermination => ascii "process_termination"
  | .processCrash => ascii "process_crash"
  | .processStall => ascii "process_stall"
  | .coordinatorDeath => ascii "coordinator_death"
  | .workerDeath => ascii "worker_death"
  | .socketClose => ascii "socket_close"
  | .socketReset => ascii "socket_reset"
  | .socketHalfClose => ascii "socket_half_close"
  | .connectionDrop => ascii "connection_drop"
  | .frameTruncation => ascii "frame_truncation"
  | .frameCorruption => ascii "frame_corruption"
  | .frameDuplication => ascii "frame_duplication"
  | .frameReorder => ascii "frame_reorder"
  | .frameDelay => ascii "frame_delay"
  | .staleEpoch => ascii "stale_epoch"
  | .staleBoot => ascii "stale_boot"
  | .staleAttempt => ascii "stale_attempt"
  | .staleGeneration => ascii "stale_generation"
  | .staleDispatch => ascii "stale_dispatch"
  | .duplicateMessage => ascii "duplicate_message"
  | .conflictingDuplicate => ascii "conflicting_duplicate"
  | .partialFileWrite => ascii "partial_file_write"
  | .persistenceTruncation => ascii "persistence_truncation"
  | .persistenceCorruption => ascii "persistence_corruption"
  | .badChecksum => ascii "bad_checksum"
  | .badVersion => ascii "bad_version"
  | .diskWriteFailure => ascii "disk_write_failure"
  | .resourceExhaustion => ascii "resource_exhaustion"
  | .hostMemoryPressure => ascii "host_memory_pressure"
  | .deviceMemoryPressure => ascii "device_memory_pressure"
  | .reservationExhaustion => ascii "reservation_exhaustion"
  | .capacityReduction => ascii "capacity_reduction"
  | .cudaApplicationFailure => ascii "cuda_application_failure"
  | .cudaVerificationFailure => ascii "cuda_verification_failure"
  | .cudaAllocationFailure => ascii "cuda_allocation_failure"
  | .dependencyFailure => ascii "dependency_failure"
  | .recoveryFailure => ascii "recovery_failure"
  | .rollbackFailure => ascii "rollback_failure"
  | .shutdownRace => ascii "shutdown_race"
  | .restartRace => ascii "restart_race"
  | .clockSkewSimulation => ascii "clock_skew_simulation"
  | .invalidStateInjection => ascii "invalid_state_injection"
  | .last => ascii "unknown"

inductive FaultSource where
  | injected | secondary | targetResponse | recovery | environment | unspecified
deriving DecidableEq, Repr

inductive FaultScope where
  | process | worker | coordinator | connection | persistence | file
  | allocation | reservation | accelerator | hostMemory | deviceMemory
  | host | device | generation | epoch | protocol | authority | unspecified
deriving DecidableEq, Repr

inductive Severity where
  | low | medium | high | critical
deriving DecidableEq, Repr

inductive Timing where
  | immediate | delayed | atEvent | atBarrier | afterSideEffect | beforeAck | atPhase
  | unspecified
deriving DecidableEq, Repr

/-- A fault names a primary target and, apart from it, a set of targets. -/
structure FaultSpec where
  id : FaultId := {}
  category : FaultCategory := .processTermination
  source : FaultSource := .injected
  scope : FaultScope := .process
  severity : Severity := .high
  timing : Timing := .atEvent
  target : TargetId := {}
  targets : List TargetId := []
  detail : Bytes := []
  params : Fields := ∅
deriving DecidableEq

namespace FaultSpec

def param (fault : FaultSpec) (key : Bytes) : Option Bytes := fault.params[key]?

def paramOr (fault : FaultSpec) (key fallback : Bytes) : Bytes :=
  match fault.param key with
  | some value => value
  | none => fallback

end FaultSpec

end ChaosLab
