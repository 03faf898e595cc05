import ChaosLab.CampaignProperties
import ChaosLab.Safety
import ChaosLab.Foundation.HighWater

/-! The caps of a resource envelope hold over whole runs of the slot operations. -/

set_option autoImplicit false

namespace ChaosLab

open Foundation

namespace SafetyEnvelope

inductive Resource where
  | child | socket | restart
deriving DecidableEq, Repr

/-- A call of one of the operations on slots. -/
inductive SlotCall where
  | acquireChild | releaseChild | acquireSocket | releaseSocket | acquireRestart
deriving DecidableEq, Repr

def SlotCall.resource : SlotCall → Resource
  | .acquireChild | .releaseChild => .child
  | .acquireSocket | .releaseSocket => .socket
  | .acquireRestart => .restart

def SlotCall.acquires : SlotCall → Bool
  | .acquireChild | .acquireSocket | .acquireRestart => true
  | .releaseChild | .releaseSocket => false

/-- The status is that of the acquire functions; the others return nothing. -/
def call (safety : SafetyEnvelope) : SlotCall → Status × SafetyEnvelope
  | .acquireChild => safety.acquireChild
  | .releaseChild => ({}, safety.releaseChild)
  | .acquireSocket => safety.acquireSocket
  | .releaseSocket => ({}, safety.releaseSocket)
  | .acquireRestart => safety.acquireRestart

def after (safety : SafetyEnvelope) (slotCall : SlotCall) : SafetyEnvelope :=
  (safety.call slotCall).2

def cap (safety : SafetyEnvelope) : Resource → Int32
  | .child => safety.env.maxChildProcesses
  | .socket => safety.env.maxOpenSockets
  | .restart => safety.env.maxRestarts

def count (safety : SafetyEnvelope) : Resource → Int32
  | .child => safety.childCount
  | .socket => safety.socketCount
  | .restart => safety.restartCount

/-- The counter that is never lowered: the peak, and for restarts the counter itself. -/
def peak (safety : SafetyEnvelope) : Resource → Int32
  | .child => safety.peakChildCount
  | .socket => safety.peakSocketCount
  | .restart => safety.restartCount

section Counters

theorem toInt_succ {cap count : Int32} (room : count < cap) :
    (count + 1).toInt = count.toInt + 1 := by
  have above := Int32.lt_iff_toInt_lt.mp room
  have capBound := cap.toInt_lt
  have countBound := count.le_toInt
  rw [Int32.toInt_add, show (1 : Int32).toInt = 1 from rfl]
  exact Int.bmod_eq_of_le (by omega) (by omega)

theorem toInt_release (count : Int32) :
    (release count).toInt = if 0 < count.toInt then count.toInt - 1 else count.toInt := by
  have bound := count.toInt_lt
  unfold release
  simp only [Int32.lt_iff_toInt_lt, show (0 : Int32).toInt = 0 from rfl]
  split
  · rw [Int32.toInt_sub, show (1 : Int32).toInt = 1 from rfl]
    exact Int.bmod_eq_of_le (by omega) (by omega)
  · rfl

theorem toInt_release_le (count : Int32) : (release count).toInt ≤ count.toInt := by
  rw [toInt_release]
  split <;> omega

theorem toInt_raise (peak count : Int32) :
    (raise peak count).toInt = max peak.toInt count.toInt := by
  unfold raise
  simp only [Int32.lt_iff_toInt_lt]
  split <;> omega

/-- What holds of a counter, its peak and its cap. -/
structure WithinCap (cap count peak : Int32) : Prop where
  nonneg : 0 ≤ count
  below : count ≤ peak
  capped : peak ≤ cap

namespace WithinCap

variable {cap count peak : Int32}

theorem iff_toInt : WithinCap cap count peak ↔
    0 ≤ count.toInt ∧ count.toInt ≤ peak.toInt ∧ peak.toInt ≤ cap.toInt := by
  constructor
  · rintro ⟨nonneg, below, capped⟩
    exact ⟨Int32.le_iff_toInt_le.mp nonneg, Int32.le_iff_toInt_le.mp below,
      Int32.le_iff_toInt_le.mp capped⟩
  · rintro ⟨nonneg, below, capped⟩
    exact ⟨Int32.le_iff_toInt_le.mpr nonneg, Int32.le_iff_toInt_le.mpr below,
      Int32.le_iff_toInt_le.mpr capped⟩

theorem start (positive : 1 ≤ cap) : WithinCap cap 0 0 := by
  have one := Int32.le_iff_toInt_le.mp positive
  rw [show (1 : Int32).toInt = 1 from rfl] at one
  rw [iff_toInt, show (0 : Int32).toInt = 0 from rfl]
  omega

theorem taken (within : WithinCap cap count peak) (room : count < cap) :
    WithinCap cap (count + 1) (raise peak (count + 1)) := by
  have above := Int32.lt_iff_toInt_lt.mp room
  rw [iff_toInt] at within ⊢
  rw [toInt_raise, toInt_succ room]
  omega

theorem released (within : WithinCap cap count peak) : WithinCap cap (release count) peak := by
  rw [iff_toInt] at within ⊢
  rw [toInt_release]
  split <;> omega

/-- A counter that is its own peak. -/
theorem taken_self (within : WithinCap cap count count) (room : count < cap) :
    WithinCap cap (count + 1) (count + 1) := by
  have above := Int32.lt_iff_toInt_lt.mp room
  rw [iff_toInt] at within ⊢
  rw [toInt_succ room]
  omega

end WithinCap

end Counters

section Calls

theorem acquire_of_le {cap count : Int32} (full : cap ≤ count) (reached : Bytes)
    (safety taken : SafetyEnvelope) :
    (acquire cap count reached safety taken).2 = safety ∧
      (acquire cap count reached safety taken).1.code = .resourceLimit := by
  simp [acquire, full]

theorem acquire_of_lt {cap count : Int32} (room : count < cap) (reached : Bytes)
    (safety taken : SafetyEnvelope) : acquire cap count reached safety taken = ({}, taken) := by
  simp [acquire, room]

theorem code_acquire_eq_ok_iff (cap count : Int32) (reached : Bytes)
    (safety taken : SafetyEnvelope) :
    (acquire cap count reached safety taken).1.code = .ok ↔ count < cap := by
  by_cases room : count < cap
  · simp [acquire_of_lt room, room]
  · have full : cap ≤ count := by simpa using room
    simp [(acquire_of_le full reached safety taken).2, room]

theorem acquire_cases (cap count : Int32) (reached : Bytes) (safety taken : SafetyEnvelope) :
    (acquire cap count reached safety taken).2 = safety ∨
      count < cap ∧ (acquire cap count reached safety taken).2 = taken := by
  by_cases room : count < cap
  · exact .inr ⟨room, by rw [acquire_of_lt room]⟩
  · exact .inl (acquire_of_le (by simpa using room) reached safety taken).1

/-- All that a call can do to the state. -/
inductive Moved (safety : SafetyEnvelope) : SlotCall → SafetyEnvelope → Prop where
  | refused {slotCall} : Moved safety slotCall safety
  | childTaken (room : safety.childCount < safety.env.maxChildProcesses) :
      Moved safety .acquireChild
        { safety with
          childCount := safety.childCount + 1
          peakChildCount := raise safety.peakChildCount (safety.childCount + 1) }
  | childReleased :
      Moved safety .releaseChild { safety with childCount := release safety.childCount }
  | socketTaken (room : safety.socketCount < safety.env.maxOpenSockets) :
      Moved safety .acquireSocket
        { safety with
          socketCount := safety.socketCount + 1
          peakSocketCount := raise safety.peakSocketCount (safety.socketCount + 1) }
  | socketReleased :
      Moved safety .releaseSocket { safety with socketCount := release safety.socketCount }
  | restartTaken (room : safety.restartCount < safety.env.maxRestarts) :
      Moved safety .acquireRestart { safety with restartCount := safety.restartCount + 1 }

theorem moved_acquire {cap count : Int32} {safety taken : SafetyEnvelope} {slotCall : SlotCall}
    (takes : count < cap → Moved safety slotCall taken) (reached : Bytes) :
    Moved safety slotCall (acquire cap count reached safety taken).2 := by
  rcases acquire_cases cap count reached safety taken with refused | ⟨room, taken⟩
  · rw [refused]
    exact .refused
  · rw [taken]
    exact takes room

theorem moved_after (safety : SafetyEnvelope) (slotCall : SlotCall) :
    Moved safety slotCall (safety.after slotCall) := by
  cases slotCall with
  | acquireChild => exact moved_acquire .childTaken _
  | releaseChild => exact .childReleased
  | acquireSocket => exact moved_acquire .socketTaken _
  | releaseSocket => exact .socketReleased
  | acquireRestart => exact moved_acquire .restartTaken _

namespace Moved

variable {safety next : SafetyEnvelope} {slotCall : SlotCall}

theorem env_eq (moved : Moved safety slotCall next) : next.env = safety.env := by
  cases moved <;> rfl

theorem other (moved : Moved safety slotCall next) {resource : Resource}
    (apart : resource ≠ slotCall.resource) :
    next.count resource = safety.count resource ∧ next.peak resource = safety.peak resource := by
  cases moved with
  | refused => exact ⟨rfl, rfl⟩
  | childTaken | childReleased | socketTaken | socketReleased | restartTaken =>
      cases resource with
      | child | socket | restart => first | exact ⟨rfl, rfl⟩ | exact absurd rfl apart

theorem cap_eq (moved : Moved safety slotCall next) (resource : Resource) :
    next.cap resource = safety.cap resource := by
  unfold cap
  rw [moved.env_eq]

/-- The step lemma of the caps. -/
theorem withinCap (moved : Moved safety slotCall next)
    (within : ∀ resource, WithinCap (safety.cap resource) (safety.count resource)
      (safety.peak resource)) (resource : Resource) :
    WithinCap (next.cap resource) (next.count resource) (next.peak resource) := by
  by_cases own : resource = slotCall.resource
  · subst own
    cases moved with
    | refused => exact within _
    | childTaken room => exact (within .child).taken room
    | childReleased => exact (within .child).released
    | socketTaken room => exact (within .socket).taken room
    | socketReleased => exact (within .socket).released
    | restartTaken room => exact (within .restart).taken_self room
  · obtain ⟨count, peak⟩ := moved.other own
    rw [moved.cap_eq, count, peak]
    exact within resource

/-- The step lemma of the peaks. -/
theorem peak_eq (moved : Moved safety slotCall next) (resource : Resource)
    (below : (safety.count resource).toInt ≤ (safety.peak resource).toInt) :
    (next.peak resource).toInt =
      max (safety.peak resource).toInt (next.count resource).toInt := by
  by_cases own : resource = slotCall.resource
  · subst own
    cases moved with
    | refused => exact (max_eq_left below).symm
    | childTaken room | socketTaken room => exact toInt_raise _ _
    | childReleased | socketReleased =>
        exact (max_eq_left ((toInt_release_le _).trans below)).symm
    | restartTaken room =>
        refine (max_eq_right ?_).symm
        change safety.restartCount.toInt ≤ (safety.restartCount + 1).toInt
        rw [toInt_succ room]
        omega
  · obtain ⟨count, peak⟩ := moved.other own
    rw [count, peak]
    exact (max_eq_left below).symm

end Moved

theorem follows_peak (resource : Resource) :
    Follows after (fun safety => (safety.count resource).toInt)
      fun safety => (safety.peak resource).toInt := by
  intro safety slotCall below
  exact (moved_after safety slotCall).peak_eq resource below

end Calls

section Runs

def run (envelope : ResourceEnvelope) (calls : List SlotCall) : SafetyEnvelope :=
  calls.foldl after { env := envelope }

variable {envelope : ResourceEnvelope}

theorem env_run (envelope : ResourceEnvelope) (calls : List SlotCall) :
    (run envelope calls).env = envelope := by
  induction calls using List.reverseRecOn with
  | nil => rfl
  | append_singleton earlier slotCall ih =>
      rw [run, List.foldl_concat]
      exact (moved_after _ slotCall).env_eq.trans ih

theorem withinCap_run (valid : envelope.validate = true) (calls : List SlotCall)
    (resource : Resource) :
    WithinCap ((run envelope calls).cap resource) ((run envelope calls).count resource)
      ((run envelope calls).peak resource) := by
  induction calls using List.reverseRecOn generalizing resource with
  | nil =>
      obtain ⟨children, restarts, sockets, _⟩ := ResourceEnvelope.validate_eq_true_iff.mp valid
      cases resource with
      | child => exact .start children
      | socket => exact .start sockets
      | restart => exact .start restarts
  | append_singleton earlier slotCall ih =>
      rw [run, List.foldl_concat]
      exact (moved_after _ slotCall).withinCap ih resource

theorem isGreatest_peak (envelope : ResourceEnvelope) (calls : List SlotCall)
    (resource : Resource) :
    IsGreatest
      {value | ∃ earlier, earlier <+: calls ∧ ((run envelope earlier).count resource).toInt = value}
      ((run envelope calls).peak resource).toInt := by
  apply isGreatest_reached (follows_peak resource)
  cases resource <;> rfl

theorem restart_budget (safety : SafetyEnvelope)
    (within : WithinCap safety.env.maxRestarts safety.restartCount safety.restartCount) :
    safety.restartCount.toInt + safety.restartBudgetRemaining.toInt =
      safety.env.maxRestarts.toInt := by
  obtain ⟨nonneg, _, capped⟩ := WithinCap.iff_toInt.mp within
  have capBound := safety.env.maxRestarts.toInt_lt
  unfold restartBudgetRemaining
  by_cases room : safety.restartCount < safety.env.maxRestarts
  · rw [if_pos room, Int32.toInt_sub, Int.bmod_eq_of_le (by omega) (by omega)]
    omega
  · have full := Int32.le_iff_toInt_le.mp (Int32.not_lt.mp room)
    rw [if_neg room, show (0 : Int32).toInt = 0 from rfl]
    omega

theorem after_of_failed (safety : SafetyEnvelope) (slotCall : SlotCall)
    (failed : (safety.call slotCall).1.code ≠ .ok) : safety.after slotCall = safety := by
  unfold after call at *
  cases slotCall with
  | acquireChild | acquireSocket | acquireRestart =>
      simp only [acquireChild, acquireSocket, acquireRestart, ne_eq, code_acquire_eq_ok_iff,
        Int32.not_lt] at failed ⊢
      exact (acquire_of_le failed _ _ _).1
  | releaseChild | releaseSocket => simp at failed

theorem toInt_count_of_taken (safety : SafetyEnvelope) (slotCall : SlotCall)
    (acquires : slotCall.acquires = true) (taken : (safety.call slotCall).1.code = .ok) :
    ((safety.after slotCall).count slotCall.resource).toInt =
      (safety.count slotCall.resource).toInt + 1 := by
  unfold after call at *
  cases slotCall with
  | acquireChild | acquireSocket | acquireRestart =>
      simp only [acquireChild, acquireSocket, acquireRestart, code_acquire_eq_ok_iff] at taken ⊢
      rw [acquire_of_lt taken]
      exact toInt_succ taken
  | releaseChild | releaseSocket => cases acquires

theorem toInt_count_of_released (safety : SafetyEnvelope) (slotCall : SlotCall)
    (releases : slotCall.acquires = false) :
    ((safety.after slotCall).count slotCall.resource).toInt =
      if 0 < (safety.count slotCall.resource).toInt then
        (safety.count slotCall.resource).toInt - 1
      else (safety.count slotCall.resource).toInt := by
  cases slotCall with
  | acquireChild | acquireSocket | acquireRestart => cases releases
  | releaseChild | releaseSocket => exact toInt_release _

/-- What holds of the state after some calls on a fresh envelope. -/
structure CapsHold (envelope : ResourceEnvelope) (calls : List SlotCall) (safety : SafetyEnvelope) :
    Prop where
  children : 0 ≤ safety.childCount ∧ safety.childCount ≤ safety.peakChildCount ∧
    safety.peakChildCount ≤ envelope.maxChildProcesses
  sockets : 0 ≤ safety.socketCount ∧ safety.socketCount ≤ safety.peakSocketCount ∧
    safety.peakSocketCount ≤ envelope.maxOpenSockets
  restarts : 0 ≤ safety.restartCount ∧ safety.restartCount ≤ envelope.maxRestarts ∧
    safety.restartCount.toInt + safety.restartBudgetRemaining.toInt = envelope.maxRestarts.toInt
  childPeak : IsGreatest
    {value | ∃ earlier, earlier <+: calls ∧ (run envelope earlier).childCount.toInt = value}
    safety.peakChildCount.toInt
  socketPeak : IsGreatest
    {value | ∃ earlier, earlier <+: calls ∧ (run envelope earlier).socketCount.toInt = value}
    safety.peakSocketCount.toInt
  acquireChild : (safety.acquireChild.1.code = .ok ↔
      safety.childCount < envelope.maxChildProcesses) ∧
    (safety.acquireChild.1.code = .ok ↔ safety.canSpawnMore = true)
  acquireSocket : safety.acquireSocket.1.code = .ok ↔ safety.socketCount < envelope.maxOpenSockets
  acquireRestart : safety.acquireRestart.1.code = .ok ↔ safety.restartCount < envelope.maxRestarts
  failed : ∀ slotCall, (safety.call slotCall).1.code ≠ .ok → safety.after slotCall = safety
  taken : ∀ slotCall, slotCall.acquires = true → (safety.call slotCall).1.code = .ok →
    ((safety.after slotCall).count slotCall.resource).toInt =
      (safety.count slotCall.resource).toInt + 1
  released : ∀ slotCall, slotCall.acquires = false →
    ((safety.after slotCall).count slotCall.resource).toInt =
      if 0 < (safety.count slotCall.resource).toInt then
        (safety.count slotCall.resource).toInt - 1
      else (safety.count slotCall.resource).toInt
  others : ∀ slotCall resource, resource ≠ slotCall.resource →
    (safety.after slotCall).count resource = safety.count resource ∧
      (safety.after slotCall).peak resource = safety.peak resource

/-- The caps of a valid resource envelope hold after every sequence of calls. -/
theorem caps_hold_over_runs (envelope : ResourceEnvelope) (valid : envelope.validate = true)
    (calls : List SlotCall) : CapsHold envelope calls (run envelope calls) := by
  have config := env_run envelope calls
  have child := withinCap_run valid calls .child
  have socket := withinCap_run valid calls .socket
  have restart := withinCap_run valid calls .restart
  have budget := restart_budget (run envelope calls) restart
  simp only [cap, count, peak, config] at child socket restart budget
  exact {
    children := ⟨child.nonneg, child.below, child.capped⟩
    sockets := ⟨socket.nonneg, socket.below, socket.capped⟩
    restarts := ⟨restart.nonneg, restart.capped, budget⟩
    childPeak := isGreatest_peak envelope calls .child
    socketPeak := isGreatest_peak envelope calls .socket
    acquireChild := by
      rw [SafetyEnvelope.acquireChild, code_acquire_eq_ok_iff, canSpawnMore, config]
      exact ⟨Iff.rfl, decide_eq_true_iff.symm⟩
    acquireSocket := by
      rw [SafetyEnvelope.acquireSocket, code_acquire_eq_ok_iff, config]
    acquireRestart := by
      rw [SafetyEnvelope.acquireRestart, code_acquire_eq_ok_iff, config]
    failed := after_of_failed _
    taken := toInt_count_of_taken _
    released := toInt_count_of_released _
    others := fun slotCall _ apart => (moved_after _ slotCall).other apart }

theorem caps_hold_over_runs_two_slots :
    let calls : List SlotCall := [.acquireChild, .acquireChild, .acquireChild, .releaseChild]
    let safety := run { maxChildProcesses := 2 } calls
    CapsHold { maxChildProcesses := 2 } calls safety ∧ safety.childCount = 1 ∧
      safety.peakChildCount = 2 ∧
      ((safety.after .acquireChild).count .child).toInt = safety.childCount.toInt + 1 := by
  intro calls safety
  have holds := caps_hold_over_runs { maxChildProcesses := 2 } (by decide) calls
  exact ⟨holds, by decide, by decide, holds.taken .acquireChild rfl (by decide)⟩

end Runs

section Guards

/-- A call that takes or gives back a slot, or registers a target. -/
inductive GuardCall where
  | slot (slotCall : SlotCall)
  | own (id : TargetId)
deriving DecidableEq

def guardedAfter (safety : SafetyEnvelope) : GuardCall → SafetyEnvelope
  | .slot slotCall => safety.after slotCall
  | .own id => safety.addOwnedTarget id

def guardedRun (envelope : ResourceEnvelope) (calls : List GuardCall) : SafetyEnvelope :=
  calls.foldl guardedAfter { env := envelope }

def GuardCall.slot? : GuardCall → Option SlotCall
  | .slot slotCall => some slotCall
  | .own _ => none

def GuardCall.own? : GuardCall → Option TargetId
  | .slot _ => none
  | .own id => some id

/-- The slots do not look at the targets, nor change them. -/
theorem after_owned (safety : SafetyEnvelope) (owned : Finset TargetId) (slotCall : SlotCall) :
    after { safety with owned := owned } slotCall =
      { safety.after slotCall with owned := owned } := by
  cases slotCall with
  | releaseChild | releaseSocket => rfl
  | acquireChild | acquireSocket | acquireRestart =>
      simp only [after, call, acquireChild, acquireSocket, acquireRestart, acquire]
      split <;> rfl

/-- A run goes through its slots as if no target were registered, and has the registered
targets besides. -/
theorem guardedRun_eq (envelope : ResourceEnvelope) (calls : List GuardCall) :
    guardedRun envelope calls = { run envelope (calls.filterMap GuardCall.slot?) with
      owned := (calls.filterMap GuardCall.own?).toFinset } := by
  induction calls using List.reverseRecOn with
  | nil => rfl
  | append_singleton earlier guardCall ih =>
      rw [guardedRun, List.foldl_concat, ← guardedRun, ih, List.filterMap_append,
        List.filterMap_append]
      cases guardCall with
      | slot slotCall =>
          have slots : [GuardCall.slot slotCall].filterMap GuardCall.slot? = [slotCall] := rfl
          have owns : [GuardCall.slot slotCall].filterMap GuardCall.own? = [] := rfl
          rw [guardedAfter, after_owned, slots, owns, List.append_nil, run, run, List.foldl_concat]
      | own id =>
          have slots : [GuardCall.own id].filterMap GuardCall.slot? = [] := rfl
          have owns : [GuardCall.own id].filterMap GuardCall.own? = [id] := rfl
          simp [guardedAfter, addOwnedTarget, slots, owns]

/-- A guard lets through what satisfies the condition, and denies everything else. -/
def GuardedBy (status : Status) (condition : Prop) : Prop :=
  (status.code = .ok ↔ condition) ∧ (status.code ≠ .ok → status.code = .permissionDenied)

theorem guardedBy_ite {condition : Prop} [Decidable condition] (message : Bytes) :
    GuardedBy (if condition then {} else denied message) condition := by
  unfold GuardedBy denied
  split_ifs with holds <;> simp [holds]

theorem guardedBy_ite_or {anything listed : Prop} [Decidable anything] [Decidable listed]
    (message : Bytes) :
    GuardedBy (if anything then {} else if listed then {} else denied message) (anything ∨ listed) := by
  unfold GuardedBy denied
  split_ifs with free known <;> simp [*]

end Guards

end SafetyEnvelope

end ChaosLab
