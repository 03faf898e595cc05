import ChaosLab.Campaign
import ChaosLab.Foundation.Deletion
import ChaosLab.Random

/-! Randomly generated campaigns, and the reduction of a failing campaign. -/

set_option autoImplicit false

namespace ChaosLab

open Foundation

def kPool : List FaultCategory := [
  .workerDeath, .coordinatorDeath, .staleEpoch, .staleBoot, .staleAttempt, .staleGeneration,
  .duplicateMessage, .conflictingDuplicate, .persistenceTruncation, .persistenceCorruption,
  .resourceExhaustion, .connectionDrop, .frameCorruption, .recoveryFailure, .coordinatorDeath,
  .socketClose, .frameTruncation, .badChecksum, .partialFileWrite, .deviceMemoryPressure]

def scopeFor : FaultCategory → FaultScope
  | .staleEpoch | .staleBoot | .staleAttempt | .staleGeneration => .authority
  | .duplicateMessage | .conflictingDuplicate | .connectionDrop | .frameCorruption => .connection
  | .persistenceTruncation | .persistenceCorruption => .persistence
  | .resourceExhaustion => .reservation
  | .recoveryFailure => .process
  | _ => .process

/-- The conversion of an `int` to `std::uint64_t`. -/
def toUnsigned (value : Int32) : UInt64 := value.toInt64.toUInt64

/-- The conversion of a `std::uint64_t` to `int`. -/
def toSigned (value : UInt64) : Int32 := value.toInt64.toInt32

/-- The ids of generated targets have the top bit set. -/
def generatedTarget (number : UInt64) : TargetId := ⟨(1 : UInt64) <<< 63 ||| number⟩

/-- The `int`s a counting loop with this bound goes through. -/
def countTo (bound : Int32) : List Int32 := (List.range bound.toInt.toNat).map Int32.ofNat

structure CampaignFuzzer where
  seed : UInt64
  rng : SplitMix64
deriving DecidableEq

namespace CampaignFuzzer

def new (seed : UInt64) : CampaignFuzzer := { seed := seed, rng := ⟨seed⟩ }

/-- `pick_category`. The index drawn is always inside the pool. -/
def pickCategory (rng : SplitMix64) : FaultCategory × SplitMix64 :=
  let (drawn, rng) := rng.below (UInt64.ofNat kPool.length)
  (kPool.getD drawn.toNat .last, rng)

/-- The target `add_random_worker` adds. -/
def randomWorker (idx : Int32) : TargetSpec where
  id := generatedTarget (toUnsigned (idx + 1))
  kind := .worker
  name := ascii "worker_" ++ toStringInt idx
  executable := ascii "target_worker"
  ownsProcess := true
  restartBudget := 2

def addRandomWorker (campaign : ChaosCampaign) (idx : Int32) : ChaosCampaign :=
  { campaign with targets := campaign.targets ++ [randomWorker idx] }

/-- The fault `add_fault` adds. -/
def randomFault (id : FaultId) (category : FaultCategory) (idx : Int32) : FaultSpec :=
  let target := generatedTarget (toUnsigned (idx % 3 + 1))
  let fault : FaultSpec := {
    id := id
    category := category
    source := .injected
    scope := scopeFor category
    severity := .high
    timing := .atEvent
    target := target
    targets := [target] }
  let fault := if category = .persistenceTruncation then
    { fault with params := fault.params.insert (ascii "offset") (ascii "16") } else fault
  if category = .resourceExhaustion then
    { fault with params := fault.params.insert (ascii "percent") (ascii "90") } else fault

/-- `add_fault`. The target of the fault need not be one of the campaign's. -/
def addFault (campaign : ChaosCampaign) (rng : SplitMix64) (idx : Int32) :
    ChaosCampaign × SplitMix64 :=
  let (category, rng) := pickCategory rng
  let campaign := if campaign.targets = [] then addRandomWorker campaign 0 else campaign
  let id : FaultId := ⟨UInt64.ofNat (campaign.faultSchedule.length + 1)⟩
  let fault := randomFault id category idx
  ({ campaign with faultSchedule := campaign.faultSchedule ++ [fault] }, rng)

def coordinator : TargetSpec where
  id := generatedTarget 0x8001
  kind := .coordinator
  name := ascii "coordinator"
  executable := ascii "target_coordinator"
  ownsProcess := true

def addWorkers (campaign : ChaosCampaign) (workers : Int32) : ChaosCampaign :=
  (countTo workers).foldl addRandomWorker campaign

def addFaults (campaign : ChaosCampaign) (rng : SplitMix64) (faults : Int32) :
    ChaosCampaign × SplitMix64 :=
  (countTo faults).foldl (fun state idx => addFault state.1 state.2 idx) (campaign, rng)

/-- The part of `generate` after its loops. -/
def conclude (campaign : ChaosCampaign) (workers : Int32) : ChaosCampaign :=
  let precondition : Precondition := {
    name := ascii "registered"
    description := ascii "all targets registered"
    target := coordinator.id
    stateName := ascii "registered" }
  let assertion : AssertionSpec := { id := ⟨1⟩, kind := .assertExactlyOneAuthority }
  { campaign with
    preconditions := campaign.preconditions ++ [precondition]
    cleanupActions := campaign.cleanupActions ++
      (campaign.targets.filter TargetSpec.ownsProcess).map fun target =>
        { kind := .killProcess, target := target.id }
    assertions := campaign.assertions ++ [assertion]
    envelope.maxChildProcesses := workers + 2
    envelope.maxRestarts := 8
    envelope.allowedExecutables := [ascii "target_worker", ascii "target_coordinator"] }

def generate (fuzzer : CampaignFuzzer) (maxWorkers maxFaults : Int32) :
    ChaosCampaign × CampaignFuzzer :=
  let campaign : ChaosCampaign := {
    id := ⟨fuzzer.seed ^^^ 0x5EED5EED5EED5EED⟩
    seed := fuzzer.seed
    generation := ⟨1⟩
    purpose := ascii "fuzzed campaign seed=" ++ toString fuzzer.seed }
  let (drawn, rng) := fuzzer.rng.below (toUnsigned maxWorkers)
  let workers := toSigned (1 + drawn)
  let campaign := addWorkers campaign workers
  let campaign := { campaign with targets := campaign.targets ++ [coordinator] }
  let (drawn, rng) := rng.below (toUnsigned maxFaults)
  let faults := toSigned (1 + drawn)
  let (campaign, rng) := addFaults campaign rng faults
  (conclude campaign workers, { fuzzer with rng := rng })

end CampaignFuzzer

/-- Some fault lists the target. -/
def referenced (faults : List FaultSpec) (target : TargetSpec) : Bool :=
  faults.any fun fault => fault.targets.any fun id => id = target.id

/-- The first loop of `reduce_campaign`. -/
def reduceFaults (stillFails : ChaosCampaign → Bool) (reduced : ChaosCampaign) : ChaosCampaign :=
  { reduced with
    faultSchedule := eraseGreedily (fun _ => true)
      (fun faults => stillFails { reduced with faultSchedule := faults }) 0
      reduced.faultSchedule }

/-- The second loop of `reduce_campaign`. -/
def reduceTargets (stillFails : ChaosCampaign → Bool) (reduced : ChaosCampaign) : ChaosCampaign :=
  { reduced with
    targets := eraseGreedily
      (fun target => !referenced reduced.faultSchedule target && target.kind ≠ .coordinator)
      (fun targets => stillFails { reduced with targets := targets }) 0 reduced.targets }

def reduceCampaign (original : ChaosCampaign) (stillFails : ChaosCampaign → Bool) :
    ChaosCampaign :=
  reduceTargets stillFails (reduceFaults stillFails original)

end ChaosLab
