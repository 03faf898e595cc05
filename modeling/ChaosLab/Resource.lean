import ChaosLab.Campaign
import ChaosLab.Tcp

/-! Host allocations, the governor of reservations, host pressure, and the tracker
of the resources a campaign owns. -/

set_option autoImplicit false

namespace ChaosLab

def resourceLimit (message : Bytes) : Status := { code := .resourceLimit, message := message }

section Allocation

/-- A host allocation. Whether it holds memory is what `ptr_` says. -/
structure HostAllocation where
  held : Bool := false
  bytes : UInt64 := 0
deriving DecidableEq

namespace HostAllocation

def release (allocation : HostAllocation) : HostAllocation :=
  if allocation.held then {} else allocation

/-- `HostAllocation::allocate`, with whether `malloc` succeeds if it is called. -/
def allocate (allocation : HostAllocation) (malloc : Bool) (bytes maxBytes : UInt64) :
    Status × HostAllocation :=
  if maxBytes ≠ 0 ∧ bytes > maxBytes then
    (resourceLimit (ascii "allocation exceeds host cap: " ++ toString bytes ++ ascii " > " ++
      toString maxBytes), allocation)
  else
    let allocation := if allocation.held then allocation.release else allocation
    if bytes = 0 then ({}, allocation)
    else if malloc = false then
      (resourceLimit (ascii "host allocation failed: " ++ toString bytes ++ ascii " bytes"),
        allocation)
    else ({}, { held := true, bytes := bytes })

end HostAllocation

end Allocation

section Governor

structure ResourceGovernor where
  env : ResourceEnvelope := {}
  allocated : UInt64 := 0
  reserved : UInt64 := 0
deriving DecidableEq

namespace ResourceGovernor

/-- `try_allocate`: its status, what it stores in `allocated`, and the governor it leaves. -/
def tryAllocate (governor : ResourceGovernor) (malloc : Bool) (bytes allocated : UInt64) :
    Status × UInt64 × ResourceGovernor :=
  if governor.env.maxHostAllocationBytes ≠ 0 ∧
      governor.allocated + bytes > governor.env.maxHostAllocationBytes then
    (resourceLimit (ascii "host allocation cap exceeded"), allocated, governor)
  else if bytes = 0 then ({}, 0, governor)
  else if malloc = false then (resourceLimit (ascii "allocation failed"), allocated, governor)
  else ({}, bytes, { governor with allocated := governor.allocated + bytes })

def accountFree (governor : ResourceGovernor) (bytes : UInt64) : ResourceGovernor :=
  { governor with
    allocated := if bytes > governor.allocated then 0 else governor.allocated - bytes }

def reserve (governor : ResourceGovernor) (units : UInt64) : Status × ResourceGovernor :=
  if governor.env.maxHostAllocationBytes ≠ 0 ∧
      governor.reserved + units > governor.env.maxHostAllocationBytes then
    (resourceLimit (ascii "reservation cap exceeded"), governor)
  else ({}, { governor with reserved := governor.reserved + units })

def releaseReservation (governor : ResourceGovernor) (units : UInt64) : ResourceGovernor :=
  { governor with reserved := if units > governor.reserved then 0 else governor.reserved - units }

end ResourceGovernor

end Governor

section Pressure

def kChunk : UInt64 := 16 * 1024 * 1024

/-- The step that `cap_bytes` leaves room for; none if it leaves no room. -/
def cappedStep (capBytes total : UInt64) : Option UInt64 :=
  if capBytes ≠ 0 ∧ total + kChunk > capBytes then
    if capBytes - total = 0 then none else some (capBytes - total)
  else some kChunk

def clampedStep (targetBytes total step : UInt64) : UInt64 :=
  if total + step > targetBytes then targetBytes - total else step

/-- The loop of `apply_host_pressure`, for so many turns at most. `malloc` says whether a turn
gets the bytes it asks for. -/
def pressureLoop (malloc : Nat → UInt64 → Bool) (targetBytes capBytes : UInt64) :
    Nat → Nat → List HostAllocation → UInt64 → Option (List HostAllocation × UInt64)
  | 0, _, _, _ => none
  | turns + 1, turn, out, total =>
      if total < targetBytes then
        match cappedStep capBytes total with
        | none => some (out, total)
        | some step =>
            let step := clampedStep targetBytes total step
            let (status, a) := ({} : HostAllocation).allocate (malloc turn step) step capBytes
            if status.code ≠ .ok then some (out, total)
            else if capBytes ≠ 0 ∧ total + step ≥ capBytes then some (out ++ [a], total + step)
            else pressureLoop malloc targetBytes capBytes turns (turn + 1) (out ++ [a])
              (total + step)
      else some (out, total)

/-- `apply_host_pressure`: the allocations and the total it leaves, if so many turns are
enough. Its status is always ok. -/
def applyHostPressure (malloc : Nat → UInt64 → Bool) (turns : Nat)
    (targetBytes capBytes : UInt64) : Option (List HostAllocation × UInt64) :=
  pressureLoop malloc targetBytes capBytes turns 0 [] 0

end Pressure

section Tracker

structure ResourceCounts where
  childProcesses : UInt64 := 0
  openSockets : UInt64 := 0
  hostBytes : UInt64 := 0
  deviceBytes : UInt64 := 0
  tempFiles : UInt64 := 0
  threads : UInt64 := 0
deriving DecidableEq

structure ResourceBaseline where
  before : ResourceCounts := {}
  peak : ResourceCounts := {}
  after : ResourceCounts := {}
  leak : Bool := false
deriving DecidableEq

structure ResourceBaselineTracker where
  baseline : ResourceBaseline := {}
  captured : Bool := false
deriving DecidableEq

def ResourceCounts.max (pk now : ResourceCounts) : ResourceCounts where
  childProcesses := Max.max pk.childProcesses now.childProcesses
  openSockets := Max.max pk.openSockets now.openSockets
  hostBytes := Max.max pk.hostBytes now.hostBytes
  deviceBytes := Max.max pk.deviceBytes now.deviceBytes
  tempFiles := Max.max pk.tempFiles now.tempFiles
  threads := Max.max pk.threads now.threads

def leaked (b a : UInt64) : Bool := a > b && a ≠ 0

def ResourceBaselineTracker.observe (tracker : ResourceBaselineTracker) (now : ResourceCounts) :
    ResourceBaselineTracker :=
  let before := if tracker.captured then tracker.baseline.before else now
  { baseline :=
      { before := before
        after := now
        peak := tracker.baseline.peak.max now
        leak := leaked before.childProcesses now.childProcesses ||
          leaked before.openSockets now.openSockets ||
          leaked before.hostBytes now.hostBytes ||
          leaked before.tempFiles now.tempFiles ||
          leaked before.threads now.threads ||
          leaked before.deviceBytes now.deviceBytes }
    captured := true }

end Tracker

end ChaosLab
