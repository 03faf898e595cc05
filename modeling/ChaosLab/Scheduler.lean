import ChaosLab.Campaign
import ChaosLab.Random

/-! The plan of injections that a scheduler makes of a campaign, and the observations that
fire them. -/

set_option autoImplicit false

namespace ChaosLab

inductive TriggerKind where
  | eventCount | stateTransition | protocolMessage | operationPhase | processRegistration
  | dispatch | completionBoundary | persistencePhase | explicitBarrier | resourceThreshold
  | none
deriving DecidableEq, Repr

def triggerKindName : TriggerKind → Bytes
  | .eventCount => ascii "event_count"
  | .stateTransition => ascii "state_transition"
  | .protocolMessage => ascii "protocol_message"
  | .operationPhase => ascii "operation_phase"
  | .processRegistration => ascii "process_registration"
  | .dispatch => ascii "dispatch"
  | .completionBoundary => ascii "completion_boundary"
  | .persistencePhase => ascii "persistence_phase"
  | .explicitBarrier => ascii "explicit_barrier"
  | .resourceThreshold => ascii "resource_threshold"
  | .none => ascii "none"

def defaultTrigger : FaultCategory → TriggerKind
  | .processTermination | .processCrash | .processStall | .workerDeath | .coordinatorDeath =>
      .completionBoundary
  | .socketClose | .socketReset | .socketHalfClose | .connectionDrop => .protocolMessage
  | .frameTruncation | .frameCorruption | .frameDuplication | .frameReorder | .frameDelay =>
      .protocolMessage
  | .staleEpoch | .staleBoot | .staleAttempt | .staleGeneration | .staleDispatch =>
      .explicitBarrier
  | .duplicateMessage | .conflictingDuplicate => .protocolMessage
  | .partialFileWrite | .persistenceTruncation | .persistenceCorruption | .badChecksum
  | .badVersion | .diskWriteFailure => .persistencePhase
  | .resourceExhaustion | .hostMemoryPressure | .deviceMemoryPressure | .reservationExhaustion
  | .capacityReduction | .cudaAllocationFailure => .resourceThreshold
  | .recoveryFailure | .rollbackFailure => .completionBoundary
  | .shutdownRace | .restartRace | .clockSkewSimulation | .invalidStateInjection =>
      .stateTransition
  | _ => .eventCount

/-- The names a `trigger` parameter may give, in lower case. Two kinds have none. -/
def triggerNamed (lower : Bytes) : Option TriggerKind :=
  if lower = ascii "event_count" then some .eventCount
  else if lower = ascii "state_transition" then some .stateTransition
  else if lower = ascii "protocol_message" then some .protocolMessage
  else if lower = ascii "dispatch" then some .dispatch
  else if lower = ascii "completion_boundary" then some .completionBoundary
  else if lower = ascii "persistence_phase" then some .persistencePhase
  else if lower = ascii "explicit_barrier" then some .explicitBarrier
  else if lower = ascii "resource_threshold" then some .resourceThreshold
  else if lower = ascii "process_registration" then some .processRegistration
  else none

structure ScheduledInjection where
  id : InjectionId
  fault : FaultId
  category : FaultCategory
  target : TargetId
  timing : Timing := .atEvent
  trigger : TriggerKind := .none
  triggerName : Bytes := []
  atCount : UInt64 := 1
  order : UInt64 := 0
  fired : Bool := false
deriving DecidableEq

structure FaultScheduler where
  seed : UInt64
  schedule : List ScheduledInjection := []
  counts : List (Bytes × UInt64) := []
deriving DecidableEq

/-- One turn of the loop of `plan`. -/
def planFault (fault : FaultSpec) (id : UInt64) (order : UInt64) : ScheduledInjection :=
  let trigger := match fault.param (ascii "trigger") with
    | some text => (triggerNamed (toLower text)).getD (defaultTrigger fault.category)
    | none => defaultTrigger fault.category
  { id := ⟨id⟩
    fault := fault.id
    category := fault.category
    target := fault.target
    timing := fault.timing
    trigger := trigger
    triggerName := fault.paramOr (ascii "trigger_name") (triggerKindName trigger)
    atCount := match fault.param (ascii "at_count") with
      | some text => (fromHex text).getD 1
      | none => 1
    order := order }

def planFrom (rng : SplitMix64) (order : UInt64) : List FaultSpec → List ScheduledInjection
  | [] => []
  | fault :: faults =>
      let (id, rng) := rng.next
      planFault fault id order :: planFrom rng (order + 1) faults

def FaultScheduler.plan (scheduler : FaultScheduler) (campaign : ChaosCampaign) : FaultScheduler :=
  { scheduler with
    schedule := planFrom ⟨scheduler.seed⟩ 0 campaign.faultSchedule
    counts := [] }

/-- Whether `try_fire` gets past its four `continue`s. An injection without a name takes
every name. -/
def ScheduledInjection.armed (injection : ScheduledInjection) (trigger : TriggerKind)
    (name : Bytes) (count : UInt64) : Bool :=
  if injection.fired then false
  else if injection.trigger ≠ trigger then false
  else if injection.triggerName ≠ [] ∧ injection.triggerName ≠ name then false
  else if trigger = .eventCount ∧ count < injection.atCount then false
  else true

/-- The loop of `try_fire`: the ids it collects and the schedule it leaves. -/
def fireArmed (trigger : TriggerKind) (name : Bytes) (count : UInt64) :
    List ScheduledInjection → List InjectionId × List ScheduledInjection
  | [] => ([], [])
  | injection :: schedule =>
      let rest := fireArmed trigger name count schedule
      if injection.armed trigger name count then
        (injection.id :: rest.1, { injection with fired := true } :: rest.2)
      else (rest.1, injection :: rest.2)

/-- The loop of `event_count`. -/
def countOf (event : Bytes) : List (Bytes × UInt64) → UInt64
  | [] => 0
  | entry :: counts => if entry.1 = event then entry.2 else countOf event counts

/-- The count of an event goes up by one, or the event is entered with one. -/
def bumpCount (event : Bytes) : List (Bytes × UInt64) → UInt64 × List (Bytes × UInt64)
  | [] => (1, [(event, 1)])
  | entry :: counts =>
      if entry.1 = event then (entry.2 + 1, (entry.1, entry.2 + 1) :: counts)
      else ((bumpCount event counts).1, entry :: (bumpCount event counts).2)

/-- The values of the enumeration, in its order, up to `NONE`. -/
def triggerKinds : List TriggerKind :=
  [.eventCount, .stateTransition, .protocolMessage, .operationPhase, .processRegistration,
    .dispatch, .completionBoundary, .persistencePhase, .explicitBarrier, .resourceThreshold,
    .none]

namespace FaultScheduler

def eventCount (scheduler : FaultScheduler) (event : Bytes) : UInt64 :=
  countOf event scheduler.counts

def tryFire (scheduler : FaultScheduler) (trigger : TriggerKind) (name : Bytes)
    (count : UInt64) : List InjectionId × FaultScheduler :=
  let result := fireArmed trigger name count scheduler.schedule
  (result.1, { scheduler with schedule := result.2 })

/-- The loop of `observe_event` over the kinds. -/
def tryFireEach (event : Bytes) (count : UInt64) (scheduler : FaultScheduler) :
    List TriggerKind → List InjectionId × FaultScheduler
  | [] => ([], scheduler)
  | kind :: kinds =>
      let first := scheduler.tryFire kind event count
      let rest := tryFireEach event count first.2 kinds
      (first.1 ++ rest.1, rest.2)

def observeEvent (scheduler : FaultScheduler) (event : Bytes) :
    List InjectionId × FaultScheduler :=
  let bumped := bumpCount event scheduler.counts
  tryFireEach event bumped.1 { scheduler with counts := bumped.2 } triggerKinds

/-- The target is not looked at. -/
def observeState (scheduler : FaultScheduler) (_target : TargetId) (state : Bytes) :
    List InjectionId × FaultScheduler :=
  scheduler.tryFire .stateTransition state 1

def observeMessage (scheduler : FaultScheduler) (message : Bytes) :
    List InjectionId × FaultScheduler :=
  scheduler.tryFire .protocolMessage message 1

def allFired (scheduler : FaultScheduler) : Bool :=
  if scheduler.schedule = [] then true
  else scheduler.schedule.all ScheduledInjection.fired

def firedCount (scheduler : FaultScheduler) : Nat :=
  scheduler.schedule.countP ScheduledInjection.fired

end FaultScheduler

/-- A call of one of the three observing functions. -/
inductive Observation where
  | event (name : Bytes)
  | state (target : TargetId) (name : Bytes)
  | message (name : Bytes)
deriving DecidableEq

namespace FaultScheduler

def observe (scheduler : FaultScheduler) : Observation → List InjectionId × FaultScheduler
  | .event name => scheduler.observeEvent name
  | .state target name => scheduler.observeState target name
  | .message name => scheduler.observeMessage name

/-- The lists the calls return, one after the other, and the scheduler they leave. -/
def observeAll (scheduler : FaultScheduler) :
    List Observation → List InjectionId × FaultScheduler
  | [] => ([], scheduler)
  | observation :: trace =>
      let first := scheduler.observe observation
      let rest := observeAll first.2 trace
      (first.1 ++ rest.1, rest.2)

end FaultScheduler

end ChaosLab
