import ChaosLab.Campaign
import ChaosLab.Tcp

/-! The safety envelope: the guards in front of destructive actions, and the
slots that a campaign may take. -/

set_option autoImplicit false

namespace ChaosLab

structure SafetyEnvelope where
  env : ResourceEnvelope := {}
  owned : Finset TargetId := ∅
  childCount : Int32 := 0
  socketCount : Int32 := 0
  restartCount : Int32 := 0
  peakChildCount : Int32 := 0
  peakSocketCount : Int32 := 0
deriving DecidableEq

namespace SafetyEnvelope

def denied (message : Bytes) : Status := { code := .permissionDenied, message := message }

def allowExecutable (safety : SafetyEnvelope) (path : Bytes) : Status :=
  if safety.env.allowedExecutables = [] then {}
  else if safety.env.allowedExecutables.any fun allowed => toLower allowed = toLower path then {}
  else denied (ascii "executable not in allowed list: " ++ path)

def addOwnedTarget (safety : SafetyEnvelope) (id : TargetId) : SafetyEnvelope :=
  { safety with owned := insert id safety.owned }

def isOwnedTarget (safety : SafetyEnvelope) (id : TargetId) : Bool := id ∈ safety.owned

def allowTarget (safety : SafetyEnvelope) (id : TargetId) : Status :=
  if safety.isOwnedTarget id then {}
  else denied (ascii "target not owned by campaign: " ++ id.str)

def allowPath (safety : SafetyEnvelope) (path : Bytes) : Status :=
  if safety.env.allowedTempRoot = [] then {}
  else if startsWith path safety.env.allowedTempRoot then {}
  else denied (ascii "path outside allowed temp root: " ++ path)

def allowPid (safety : SafetyEnvelope) (pid : UInt64) : Status :=
  if safety.env.allowedPids = [] then {}
  else if pid ∈ safety.env.allowedPids then {}
  else denied (ascii "pid not in allowed set: " ++ toString pid)

/-- What the acquire functions share: `taken` is the state with the slot taken. -/
def acquire (cap count : Int32) (reached : Bytes) (safety taken : SafetyEnvelope) :
    Status × SafetyEnvelope :=
  if cap ≤ count then
    ({ code := .resourceLimit, message := reached ++ toStringInt cap ++ ascii ")" }, safety)
  else ({}, taken)

def release (count : Int32) : Int32 := if 0 < count then count - 1 else count

/-- A peak, after its counter has gone up to `count`. -/
def raise (peak count : Int32) : Int32 := if peak < count then count else peak

def acquireChild (safety : SafetyEnvelope) : Status × SafetyEnvelope :=
  acquire safety.env.maxChildProcesses safety.childCount (ascii "child process cap reached (")
    safety
    { safety with
      childCount := safety.childCount + 1
      peakChildCount := raise safety.peakChildCount (safety.childCount + 1) }

def releaseChild (safety : SafetyEnvelope) : SafetyEnvelope :=
  { safety with childCount := release safety.childCount }

def canSpawnMore (safety : SafetyEnvelope) : Bool :=
  safety.childCount < safety.env.maxChildProcesses

def acquireSocket (safety : SafetyEnvelope) : Status × SafetyEnvelope :=
  acquire safety.env.maxOpenSockets safety.socketCount (ascii "open socket cap reached (") safety
    { safety with
      socketCount := safety.socketCount + 1
      peakSocketCount := raise safety.peakSocketCount (safety.socketCount + 1) }

def releaseSocket (safety : SafetyEnvelope) : SafetyEnvelope :=
  { safety with socketCount := release safety.socketCount }

/-- `acquire_restart`. Restarts are never given back, and have no peak. -/
def acquireRestart (safety : SafetyEnvelope) : Status × SafetyEnvelope :=
  acquire safety.env.maxRestarts safety.restartCount (ascii "restart cap reached (") safety
    { safety with restartCount := safety.restartCount + 1 }

def restartBudgetRemaining (safety : SafetyEnvelope) : Int32 :=
  if safety.restartCount < safety.env.maxRestarts then
    safety.env.maxRestarts - safety.restartCount
  else 0

def validate (safety : SafetyEnvelope) : Status :=
  if !safety.env.validate then
    { code := .invalidArgument, message := ascii "resource envelope invalid" }
  else {}

end SafetyEnvelope

end ChaosLab
