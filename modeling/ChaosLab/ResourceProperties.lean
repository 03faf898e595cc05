import ChaosLab.Resource
import ChaosLab.Foundation.Transition
import ChaosLab.Foundation.HighWater

/-! What is granted by a governor, what host pressure leaves behind, and what the tracker
says of the snapshots it was shown. -/

set_option autoImplicit false

namespace ChaosLab

section Reservation

inductive ReservationCall where
  | reserve (units : UInt64)
  | release (units : UInt64)
deriving DecidableEq

/-- A governor, and the units granted and not yet returned, counted without bound. -/
structure Reservations where
  governor : ResourceGovernor
  granted : Nat := 0
deriving DecidableEq

namespace Reservations

def reserve (state : Reservations) (units : UInt64) : Reservations × List Status :=
  let (status, governor) := state.governor.reserve units
  let granted := if status.code = .ok then state.granted + units.toNat else state.granted
  ({ governor, granted }, [status])

def release (state : Reservations) (units : UInt64) : Reservations where
  governor := state.governor.releaseReservation units
  granted := state.granted - units.toNat

/-- Calls on one governor by callers that never return more than they were granted. -/
def machine : Foundation.Machine Reservations ReservationCall Status where
  step state
    | .reserve units => some (state.reserve units)
    | .release units => if units.toNat ≤ state.granted then some (state.release units, []) else none

/-- The governor says what is granted, and that is within the cap. -/
structure Exact (state : Reservations) : Prop where
  counts : state.governor.reserved.toNat = state.granted
  capped : state.governor.env.maxHostAllocationBytes ≠ 0 →
    state.governor.reserved ≤ state.governor.env.maxHostAllocationBytes

/-- The units granted and the units asked for add up to a 64-bit number, or to one that is
over the cap after it has wrapped. -/
def Fits (state : Reservations) : ReservationCall → Prop
  | .reserve units => state.granted + units.toNat < 2 ^ 64 ∨
      state.governor.env.maxHostAllocationBytes ≠ 0 ∧
        state.governor.env.maxHostAllocationBytes.toNat < (state.granted + units.toNat) % 2 ^ 64
  | .release _ => True

instance (state : Reservations) : (call : ReservationCall) → Decidable (state.Fits call)
  | .reserve _ => inferInstanceAs (Decidable (_ ∨ _))
  | .release _ => .isTrue trivial

abbrev Step := Foundation.Transition Reservations ReservationCall Status

structure Sound (transition : Step) : Prop where
  exact : transition.after.Exact
  refused : ∀ status ∈ transition.outputs, status.code ≠ .ok →
    transition.after = transition.before

variable {state : Reservations} {units : UInt64}

theorem exact_start (env : ResourceEnvelope) : Exact { governor := { env := env } } where
  counts := rfl
  capped _ := UInt64.zero_le

theorem Exact.release (exact : state.Exact) (held : units.toNat ≤ state.granted) :
    (state.release units).Exact := by
  have notMore : ¬ units > state.governor.reserved := by
    rw [gt_iff_lt, UInt64.lt_iff_toNat_lt, exact.counts]
    omega
  have within : units ≤ state.governor.reserved := UInt64.not_lt.mp notMore
  have left : (state.governor.releaseReservation units).reserved =
      state.governor.reserved - units := by
    simp only [ResourceGovernor.releaseReservation, if_neg notMore]
  constructor
  · change (state.governor.releaseReservation units).reserved.toNat = state.granted - units.toNat
    rw [left, UInt64.toNat_sub_of_le _ _ within, exact.counts]
  · intro limited
    change (state.governor.releaseReservation units).reserved ≤ _
    rw [left]
    exact UInt64.le_trans (UInt64.sub_le within) (exact.capped limited)

theorem reserve_refused (full : state.governor.env.maxHostAllocationBytes ≠ 0 ∧
      state.governor.reserved + units > state.governor.env.maxHostAllocationBytes) :
    state.reserve units = (state, [resourceLimit (ascii "reservation cap exceeded")]) := by
  simp only [reserve, ResourceGovernor.reserve, if_pos full]
  rfl

theorem reserve_granted (room : ¬ (state.governor.env.maxHostAllocationBytes ≠ 0 ∧
      state.governor.reserved + units > state.governor.env.maxHostAllocationBytes)) :
    state.reserve units =
      ({ governor := { state.governor with reserved := state.governor.reserved + units },
         granted := state.granted + units.toNat }, [{}]) := by
  simp only [reserve, ResourceGovernor.reserve, if_neg room]
  rfl

theorem Exact.over_cap_iff (exact : state.Exact) :
    state.governor.reserved + units > state.governor.env.maxHostAllocationBytes ↔
      state.governor.env.maxHostAllocationBytes.toNat <
        (state.granted + units.toNat) % 2 ^ 64 := by
  rw [gt_iff_lt, UInt64.lt_iff_toNat_lt, UInt64.toNat_add, exact.counts]

theorem Exact.sound_reserve_iff (exact : state.Exact) :
    Sound ⟨state, .reserve units, (state.reserve units).2, (state.reserve units).1⟩ ↔
      state.Fits (.reserve units) := by
  by_cases full : state.governor.env.maxHostAllocationBytes ≠ 0 ∧
      state.governor.reserved + units > state.governor.env.maxHostAllocationBytes
  · rw [reserve_refused full]
    apply iff_of_true
    · exact ⟨exact, fun _ _ _ => rfl⟩
    · exact .inr ⟨full.1, exact.over_cap_iff.mp full.2⟩
  · rw [reserve_granted full]
    constructor
    · rintro ⟨⟨counts, _⟩, _⟩
      left
      change (state.governor.reserved + units).toNat = state.granted + units.toNat at counts
      rw [← counts]
      exact UInt64.toNat_lt _
    · intro fits
      have small : state.granted + units.toNat < 2 ^ 64 := by
        rcases fits with small | ⟨limited, above⟩
        · exact small
        · exact absurd ⟨limited, exact.over_cap_iff.mpr above⟩ full
      refine ⟨⟨?_, fun limited => ?_⟩, fun status ok failed => ?_⟩
      · change (state.governor.reserved + units).toNat = state.granted + units.toNat
        rw [UInt64.toNat_add, exact.counts, Nat.mod_eq_of_lt small]
      · exact UInt64.not_lt.mp fun above => full ⟨limited, above⟩
      · obtain rfl := List.mem_singleton.mp ok
        exact absurd rfl failed

theorem Exact.sound_iff {call : ReservationCall} {next : Reservations} {outputs : List Status}
    (exact : state.Exact) (stepped : machine.step state call = some (next, outputs)) :
    Sound ⟨state, call, outputs, next⟩ ↔ state.Fits call := by
  cases call with
  | reserve units =>
      cases stepped
      exact exact.sound_reserve_iff
  | release units =>
      by_cases held : units.toNat ≤ state.granted
      · simp only [machine, if_pos held] at stepped
        cases stepped
        exact iff_of_true ⟨exact.release held, fun _ none _ => absurd none List.not_mem_nil⟩ trivial
      · simp only [machine, if_neg held] at stepped
        cases stepped

end Reservations

open Reservations in
/-- In a run of a governor every call is sound exactly if none asks for units whose exact
sum with what is granted is beyond 64 bits and whose wrapped sum is within the cap. -/
theorem reservations_sound_iff (env : ResourceEnvelope) (history : List Step)
    (final : Reservations)
    (run : Foundation.Run machine { governor := { env := env } } history final) :
    (∀ transition ∈ history, Sound transition) ↔
      ∀ transition ∈ history, transition.before.Fits transition.action :=
  run.good_iff_meets (fun _ sound => sound.exact) Exact.sound_iff (exact_start env)

open Reservations in
theorem reservations_sound_iff_under_cap : ∃ history final,
    Foundation.Run machine { governor := { env := { maxHostAllocationBytes := 100 } } }
      history final ∧
    history.length = 4 ∧ final.governor.reserved = 90 ∧ final.granted = 90 ∧
    ∀ transition ∈ history, Sound transition := by
  obtain ⟨history, final, run, length, reserved, granted, fits⟩ := machine.exists_run
    { governor := { env := { maxHostAllocationBytes := 100 } } }
    [.reserve 50, .reserve 60, .release 20, .reserve 60]
    (fun history final => history.length = 4 ∧ final.governor.reserved = 90 ∧
      final.granted = 90 ∧ ∀ transition ∈ history, transition.before.Fits transition.action)
    (by decide +kernel)
  exact ⟨history, final, run, length, reserved, granted,
    (reservations_sound_iff _ history final run).mpr fits⟩

open Reservations in
/-- With 50 of 100 units granted, a request of 2^64 - 10 more is granted too. -/
theorem reservation_beyond_cap : ∃ history final,
    Foundation.Run machine { governor := { env := { maxHostAllocationBytes := 100 } } }
      history final ∧
    final.granted = 2 ^ 64 + 40 ∧ final.governor.reserved = 40 ∧
    ¬ ∀ transition ∈ history, Sound transition := by
  obtain ⟨history, final, run, last, granted, reserved⟩ := machine.exists_run
    { governor := { env := { maxHostAllocationBytes := 100 } } }
    [.reserve 50, .reserve (2 ^ 64 - 10)]
    (fun history final => (∃ transition ∈ history, transition.after = final) ∧
      final.granted = 2 ^ 64 + 40 ∧ final.governor.reserved = 40)
    (by decide +kernel)
  refine ⟨history, final, run, granted, reserved, fun sound => ?_⟩
  obtain ⟨transition, member, rfl⟩ := last
  have counts := (sound transition member).exact.counts
  rw [granted, reserved] at counts
  exact absurd counts (by decide)

end Reservation

section Accounting

inductive AllocationCall where
  | allocate (malloc : Bool) (bytes : UInt64)
  | free (bytes : UInt64)
deriving DecidableEq

/-- A governor, and the bytes granted and not yet accounted as freed, counted without bound. -/
structure Allocations where
  governor : ResourceGovernor
  granted : Nat := 0
deriving DecidableEq

namespace Allocations

def allocate (state : Allocations) (malloc : Bool) (bytes : UInt64) : Allocations × List Status :=
  let (status, allocated, governor) := state.governor.tryAllocate malloc bytes 0
  let granted := if status.code = .ok then state.granted + allocated.toNat else state.granted
  ({ governor, granted }, [status])

def free (state : Allocations) (bytes : UInt64) : Allocations where
  governor := state.governor.accountFree bytes
  granted := state.granted - bytes.toNat

/-- Calls on one governor by callers that never free more than they were granted. -/
def machine : Foundation.Machine Allocations AllocationCall Status where
  step state
    | .allocate malloc bytes => some (state.allocate malloc bytes)
    | .free bytes => if bytes.toNat ≤ state.granted then some (state.free bytes, []) else none

/-- The same counter and cap, as reservations. -/
def view (state : Allocations) : Reservations where
  governor := { env := state.governor.env, reserved := state.governor.allocated }
  granted := state.granted

/-- As for reservations; what `malloc` refuses is not counted. -/
def Fits (state : Allocations) : AllocationCall → Prop
  | .allocate malloc bytes => malloc = true → state.view.Fits (.reserve bytes)
  | .free _ => True

instance (state : Allocations) : (call : AllocationCall) → Decidable (state.Fits call)
  | .allocate _ _ => inferInstanceAs (Decidable (_ → _))
  | .free _ => .isTrue trivial

abbrev Step := Foundation.Transition Allocations AllocationCall Status

structure Sound (transition : Step) : Prop where
  exact : transition.after.view.Exact
  refused : ∀ status ∈ transition.outputs, status.code ≠ .ok →
    transition.after = transition.before

variable {state : Allocations} {bytes : UInt64}

theorem allocate_refused (malloc : Bool)
    (full : state.governor.env.maxHostAllocationBytes ≠ 0 ∧
      state.governor.allocated + bytes > state.governor.env.maxHostAllocationBytes) :
    state.allocate malloc bytes =
      (state, [resourceLimit (ascii "host allocation cap exceeded")]) := by
  simp only [allocate, ResourceGovernor.tryAllocate, if_pos full]
  rfl

theorem allocate_unserved (malloc : Bool) (unserved : bytes = 0 ∨ malloc = false)
    (room : ¬ (state.governor.env.maxHostAllocationBytes ≠ 0 ∧
      state.governor.allocated + bytes > state.governor.env.maxHostAllocationBytes)) :
    ∃ status, state.allocate malloc bytes = (state, [status]) := by
  simp only [allocate, ResourceGovernor.tryAllocate, if_neg room]
  by_cases empty : bytes = 0
  · simp [empty]
  · simp [empty, unserved.resolve_left empty, resourceLimit]

theorem allocate_granted (nonempty : bytes ≠ 0)
    (room : ¬ (state.governor.env.maxHostAllocationBytes ≠ 0 ∧
      state.governor.allocated + bytes > state.governor.env.maxHostAllocationBytes)) :
    state.allocate true bytes =
      ({ governor := { state.governor with allocated := state.governor.allocated + bytes },
         granted := state.granted + bytes.toNat }, [{}]) := by
  simp [allocate, ResourceGovernor.tryAllocate, room, nonempty]

theorem sound_allocate_iff (exact : state.view.Exact) (malloc : Bool) :
    Sound ⟨state, .allocate malloc bytes, (state.allocate malloc bytes).2,
      (state.allocate malloc bytes).1⟩ ↔ state.Fits (.allocate malloc bytes) := by
  by_cases full : state.governor.env.maxHostAllocationBytes ≠ 0 ∧
      state.governor.allocated + bytes > state.governor.env.maxHostAllocationBytes
  · rw [allocate_refused malloc full]
    apply iff_of_true
    · exact ⟨exact, fun _ _ _ => rfl⟩
    · exact fun _ => .inr ⟨full.1, exact.over_cap_iff.mp full.2⟩
  · by_cases unserved : bytes = 0 ∨ malloc = false
    · obtain ⟨status, kept⟩ := allocate_unserved malloc unserved full
      rw [kept]
      apply iff_of_true
      · exact ⟨exact, fun _ _ _ => rfl⟩
      · intro serves
        have empty : bytes = 0 := unserved.resolve_right (by simp [serves])
        left
        rw [empty, ← exact.counts]
        exact UInt64.toNat_lt _
    · rw [not_or, Bool.not_eq_false] at unserved
      obtain ⟨nonempty, rfl⟩ := unserved
      have reserved := @Reservations.Exact.sound_reserve_iff _ bytes exact
      rw [Reservations.reserve_granted full] at reserved
      rw [allocate_granted nonempty full]
      have noFailure {status : Status} (output : status ∈ [({} : Status)]) : status.code = .ok := by
        rw [List.mem_singleton.mp output]
      constructor
      · intro sound _
        exact reserved.mp ⟨sound.exact, fun _ output failed => absurd (noFailure output) failed⟩
      · intro fits
        exact ⟨(reserved.mpr (fits rfl)).exact,
          fun _ output failed => absurd (noFailure output) failed⟩

theorem sound_iff {call : AllocationCall} {next : Allocations} {outputs : List Status}
    (exact : state.view.Exact) (stepped : machine.step state call = some (next, outputs)) :
    Sound ⟨state, call, outputs, next⟩ ↔ state.Fits call := by
  cases call with
  | allocate malloc bytes =>
      cases stepped
      exact sound_allocate_iff exact malloc
  | free bytes =>
      by_cases held : bytes.toNat ≤ state.granted
      · simp only [machine, if_pos held] at stepped
        cases stepped
        exact iff_of_true ⟨exact.release held, fun _ none _ => absurd none List.not_mem_nil⟩ trivial
      · simp only [machine, if_neg held] at stepped
        cases stepped

end Allocations

open Allocations in
/-- In a run of a governor its count of the bytes granted is exact and within the cap, and
refusals change nothing, exactly if no call that `malloc` would serve asks for bytes whose
exact sum with what is granted is beyond 64 bits and whose wrapped sum is within the cap. -/
theorem allocations_sound_iff (env : ResourceEnvelope) (history : List Step)
    (final : Allocations)
    (run : Foundation.Run machine { governor := { env := env } } history final) :
    (∀ transition ∈ history, Sound transition) ↔
      ∀ transition ∈ history, transition.before.Fits transition.action :=
  run.good_iff_meets (fun _ sound => sound.exact) sound_iff (Reservations.exact_start env)

open Allocations in
theorem allocations_sound_iff_under_cap : ∃ history final,
    Foundation.Run machine { governor := { env := { maxHostAllocationBytes := 100 } } }
      history final ∧
    history.length = 5 ∧ final.governor.allocated = 90 ∧ final.granted = 90 ∧
    ∀ transition ∈ history, Sound transition := by
  obtain ⟨history, final, run, length, allocated, granted, fits⟩ := machine.exists_run
    { governor := { env := { maxHostAllocationBytes := 100 } } }
    [.allocate true 50, .allocate true 60, .free 20, .allocate false 30, .allocate true 60]
    (fun history final => history.length = 5 ∧ final.governor.allocated = 90 ∧
      final.granted = 90 ∧ ∀ transition ∈ history, transition.before.Fits transition.action)
    (by decide +kernel)
  exact ⟨history, final, run, length, allocated, granted,
    (allocations_sound_iff _ history final run).mpr fits⟩

end Accounting

section Pressure

namespace HostAllocation

variable {bytes maxBytes : UInt64}

/-- A fresh allocation within the cap has what `malloc` gives it. -/
theorem allocate_fresh (malloc : Bool) (nonempty : bytes ≠ 0)
    (fits : maxBytes ≠ 0 → bytes ≤ maxBytes) :
    ({} : HostAllocation).allocate malloc bytes maxBytes =
      if malloc = false then
        (resourceLimit (ascii "host allocation failed: " ++ toString bytes ++ ascii " bytes"), {})
      else ({}, { held := true, bytes := bytes }) := by
  have allowed : ¬ (maxBytes ≠ 0 ∧ bytes > maxBytes) := fun ⟨limited, above⟩ =>
    UInt64.not_lt.mpr (fits limited) above
  simp only [allocate, if_neg allowed, if_neg nonempty]
  rfl

end HostAllocation

/-- The most that host pressure may reach. -/
def pressureBound (targetBytes capBytes : UInt64) : Nat :=
  if capBytes = 0 then targetBytes.toNat else min targetBytes.toNat capBytes.toNat

/-- The loop of `apply_host_pressure` holds `total` bytes in the allocations of `out`. -/
structure Pressed (targetBytes capBytes : UInt64) (out : List HostAllocation) (total : UInt64) :
    Prop where
  sums : total.toNat = (out.map fun allocation => allocation.bytes.toNat).sum
  nonempty : ∀ allocation ∈ out, allocation.held = true ∧ allocation.bytes ≠ 0
  bounded : total.toNat ≤ pressureBound targetBytes capBytes

variable {malloc : Nat → UInt64 → Bool} {targetBytes capBytes total step : UInt64} {turn : Nat}
  {out : List HostAllocation}

theorem pressureBound_le_target (targetBytes capBytes : UInt64) :
    pressureBound targetBytes capBytes ≤ targetBytes.toNat := by
  unfold pressureBound
  split
  · exact le_rfl
  · exact min_le_left _ _

theorem pressureBound_le_cap (targetBytes : UInt64) (limited : capBytes ≠ 0) :
    pressureBound targetBytes capBytes ≤ capBytes.toNat := by
  rw [pressureBound, if_neg limited]
  exact min_le_right _ _

theorem toNat_kChunk : kChunk.toNat = 16777216 := rfl

theorem cappedStep_none (full : cappedStep capBytes total = none) :
    capBytes ≠ 0 ∧ capBytes.toNat = total.toNat := by
  unfold cappedStep at full
  split at full
  next above =>
    split at full
    next empty =>
      refine ⟨above.1, ?_⟩
      have same := congrArg UInt64.toNat empty
      rw [UInt64.toNat_sub, UInt64.toNat_zero] at same
      have := capBytes.toNat_lt
      have := total.toNat_lt
      omega
    next => cases full
  next => cases full

/-- The step a turn takes, as `total` leaves room for it. -/
theorem cappedStep_some (small : total.toNat ≤ 2 ^ 63)
    (within : capBytes ≠ 0 → total.toNat ≤ capBytes.toNat)
    (room : cappedStep capBytes total = some step) :
    step ≠ 0 ∧ step.toNat =
      if capBytes = 0 then kChunk.toNat else min kChunk.toNat (capBytes.toNat - total.toNat) := by
  have sum : (total + kChunk).toNat = total.toNat + kChunk.toNat := by
    rw [UInt64.toNat_add, toNat_kChunk, Nat.mod_eq_of_lt (by omega)]
  unfold cappedStep at room
  split at room
  next above =>
    obtain ⟨limited, above⟩ := above
    split at room
    next => cases room
    next nonempty =>
      cases room
      have within := UInt64.le_iff_toNat_le.mpr (within limited)
      rw [gt_iff_lt, UInt64.lt_iff_toNat_lt, sum] at above
      rw [if_neg limited, UInt64.toNat_sub_of_le _ _ within]
      exact ⟨nonempty, by omega⟩
  next below =>
    cases room
    refine ⟨by decide, ?_⟩
    split
    next => rfl
    next limited =>
      have fits : ¬ total + kChunk > capBytes := fun above => below ⟨limited, above⟩
      rw [gt_iff_lt, UInt64.lt_iff_toNat_lt, sum] at fits
      omega

theorem toNat_clampedStep (short : total < targetBytes)
    (noWrap : total.toNat + step.toNat < 2 ^ 64) :
    (clampedStep targetBytes total step).toNat =
      min step.toNat (targetBytes.toNat - total.toNat) := by
  have sum : (total + step).toNat = total.toNat + step.toNat := by
    rw [UInt64.toNat_add, Nat.mod_eq_of_lt noWrap]
  unfold clampedStep
  split
  next above =>
    rw [gt_iff_lt, UInt64.lt_iff_toNat_lt, sum] at above
    rw [UInt64.toNat_sub_of_le _ _ (UInt64.le_of_lt short)]
    omega
  next below =>
    rw [gt_iff_lt, UInt64.lt_iff_toNat_lt, sum] at below
    omega

/-- A turn that finds room asks for some bytes, and for no more than are missing. -/
theorem clampedStep_fits (targetSmall : targetBytes.toNat ≤ 2 ^ 63)
    (bounded : total.toNat ≤ pressureBound targetBytes capBytes) (short : total < targetBytes)
    (room : cappedStep capBytes total = some step) :
    clampedStep targetBytes total step ≠ 0 ∧
      total.toNat + (clampedStep targetBytes total step).toNat ≤
        pressureBound targetBytes capBytes := by
  have below := UInt64.lt_iff_toNat_lt.mp short
  have within (limited : capBytes ≠ 0) : total.toNat ≤ capBytes.toNat :=
    bounded.trans (pressureBound_le_cap _ limited)
  obtain ⟨nonempty, size⟩ := cappedStep_some (by omega) within room
  have positive : step.toNat ≠ 0 := fun zero => nonempty (UInt64.toNat_inj.mp zero)
  have chunk : step.toNat ≤ kChunk.toNat := by
    split at size <;> omega
  have noWrap : total.toNat + step.toNat < 2 ^ 64 := by
    rw [toNat_kChunk] at chunk
    omega
  have clamped := toNat_clampedStep short noWrap
  constructor
  · intro zero
    rw [zero, UInt64.toNat_zero] at clamped
    omega
  · unfold pressureBound
    split
    next => omega
    next limited =>
      rw [if_neg limited] at size
      omega

theorem Pressed.snoc {bytes : UInt64} (pressed : Pressed targetBytes capBytes out total)
    (targetSmall : targetBytes.toNat ≤ 2 ^ 63) (nonempty : bytes ≠ 0)
    (fits : total.toNat + bytes.toNat ≤ pressureBound targetBytes capBytes) :
    (total + bytes).toNat = total.toNat + bytes.toNat ∧
      Pressed targetBytes capBytes (out ++ [{ held := true, bytes := bytes }]) (total + bytes) := by
  have target := pressureBound_le_target targetBytes capBytes
  have sum : (total + bytes).toNat = total.toNat + bytes.toNat := by
    rw [UInt64.toNat_add, Nat.mod_eq_of_lt (by omega)]
  refine ⟨sum, ⟨?_, ?_, by rw [sum]; exact fits⟩⟩
  · rw [sum, pressed.sums]
    simp
  · intro allocation member
    rcases List.mem_append.mp member with earlier | last
    · exact pressed.nonempty allocation earlier
    · obtain rfl := List.mem_singleton.mp last
      exact ⟨rfl, nonempty⟩

/-- What one turn below the target does, however many turns may follow. -/
theorem pressureLoop_turn (malloc : Nat → UInt64 → Bool) (turn : Nat) (targetSmall : targetBytes.toNat ≤ 2 ^ 63)
    (pressed : Pressed targetBytes capBytes out total) (short : total < targetBytes) :
    (total.toNat = pressureBound targetBytes capBytes ∧ ∀ turns,
      pressureLoop malloc targetBytes capBytes (turns + 1) turn out total = some (out, total)) ∨
    ∃ bytes : UInt64, bytes ≠ 0 ∧
      total.toNat + bytes.toNat ≤ pressureBound targetBytes capBytes ∧
      ∀ turns, pressureLoop malloc targetBytes capBytes (turns + 1) turn out total =
        if malloc turn bytes = false then some (out, total)
        else if capBytes ≠ 0 ∧ total + bytes ≥ capBytes then
          some (out ++ [{ held := true, bytes := bytes }], total + bytes)
        else
          pressureLoop malloc targetBytes capBytes turns (turn + 1)
            (out ++ [{ held := true, bytes := bytes }]) (total + bytes) := by
  cases room : cappedStep capBytes total with
  | none =>
      left
      obtain ⟨limited, same⟩ := cappedStep_none room
      have below := UInt64.lt_iff_toNat_lt.mp short
      constructor
      · rw [pressureBound, if_neg limited]
        omega
      · intro turns
        simp only [pressureLoop, if_pos short, room]
  | some step =>
      right
      obtain ⟨nonempty, fits⟩ := clampedStep_fits targetSmall pressed.bounded short room
      refine ⟨clampedStep targetBytes total step, nonempty, fits, fun turns => ?_⟩
      have allowed (limited : capBytes ≠ 0) : clampedStep targetBytes total step ≤ capBytes := by
        have := pressureBound_le_cap targetBytes limited
        rw [UInt64.le_iff_toNat_le]
        omega
      simp only [pressureLoop, if_pos short, room, HostAllocation.allocate_fresh _ nonempty allowed]
      cases malloc turn (clampedStep targetBytes total step) with
      | false => rfl
      | true => rfl

/-- What the loop leaves: all it may reach, if `malloc` never fails. -/
structure Settled (malloc : Nat → UInt64 → Bool) (targetBytes capBytes : UInt64)
    (out : List HostAllocation) (total : UInt64) : Prop where
  pressed : Pressed targetBytes capBytes out total
  reaches : (∀ turn bytes, malloc turn bytes = true) →
    total.toNat = pressureBound targetBytes capBytes

/-- From here the loop ends, after no more turns than bytes are missing. -/
def Settles (malloc : Nat → UInt64 → Bool) (targetBytes capBytes : UInt64) (turn : Nat)
    (out : List HostAllocation) (total : UInt64) : Prop :=
  ∃ allocations sum, Settled malloc targetBytes capBytes allocations sum ∧
    ∀ turns, pressureBound targetBytes capBytes - total.toNat < turns →
      pressureLoop malloc targetBytes capBytes turns turn out total = some (allocations, sum)

theorem Settles.of_ends {allocations : List HostAllocation} {sum : UInt64}
    (settled : Settled malloc targetBytes capBytes allocations sum)
    (ends : ∀ turns, pressureLoop malloc targetBytes capBytes (turns + 1) turn out total =
      some (allocations, sum)) : Settles malloc targetBytes capBytes turn out total := by
  refine ⟨allocations, sum, settled, fun turns enough => ?_⟩
  obtain ⟨turns, rfl⟩ := Nat.exists_eq_add_of_lt enough
  exact ends _

theorem Settles.of_continues {more : List HostAllocation} {grown : UInt64}
    (grows : total.toNat < grown.toNat)
    (bounded : grown.toNat ≤ pressureBound targetBytes capBytes)
    (rest : Settles malloc targetBytes capBytes (turn + 1) more grown)
    (continues : ∀ turns, pressureLoop malloc targetBytes capBytes (turns + 1) turn out total =
      pressureLoop malloc targetBytes capBytes turns (turn + 1) more grown) :
    Settles malloc targetBytes capBytes turn out total := by
  obtain ⟨allocations, sum, settled, enough⟩ := rest
  refine ⟨allocations, sum, settled, fun turns many => ?_⟩
  obtain ⟨turns, rfl⟩ := Nat.exists_eq_add_of_lt many
  rw [continues]
  exact enough _ (by omega)

/-- By induction on the bytes that are missing: a turn that does not end the loop gets some. -/
theorem pressureLoop_settles (malloc : Nat → UInt64 → Bool) (turn : Nat)
    (targetSmall : targetBytes.toNat ≤ 2 ^ 63)
    (pressed : Pressed targetBytes capBytes out total) :
    Settles malloc targetBytes capBytes turn out total := by
  generalize missing : pressureBound targetBytes capBytes - total.toNat = remaining
  induction remaining using Nat.strong_induction_on generalizing turn out total with
  | h remaining ih =>
      by_cases short : total < targetBytes
      · rcases pressureLoop_turn malloc turn targetSmall pressed short with
          ⟨full, ends⟩ | ⟨bytes, nonempty, fits, once⟩
        · exact .of_ends ⟨pressed, fun _ => full⟩ ends
        · obtain ⟨sum, more⟩ := pressed.snoc targetSmall nonempty fits
          have positive : bytes.toNat ≠ 0 := fun zero => nonempty (UInt64.toNat_inj.mp zero)
          cases granted : malloc turn bytes with
          | false =>
              have unfailing : ¬ ∀ turn bytes, malloc turn bytes = true := fun always =>
                Bool.false_ne_true (granted.symm.trans (always turn bytes))
              apply Settles.of_ends ⟨pressed, fun always => absurd always unfailing⟩
              intro turns
              rw [once, granted, if_pos rfl]
          | true =>
              simp only [granted, Bool.true_eq_false, if_false] at once
              by_cases capped : capBytes ≠ 0 ∧ total + bytes ≥ capBytes
              · have reached := (pressureBound_le_cap targetBytes capped.1).trans
                  (UInt64.le_iff_toNat_le.mp capped.2)
                apply Settles.of_ends ⟨more, fun _ => le_antisymm more.bounded reached⟩
                intro turns
                rw [once, if_pos capped]
              · apply Settles.of_continues (by omega) more.bounded
                  (ih _ (by omega) (turn + 1) more rfl)
                intro turns
                rw [once, if_neg capped]
      · have reached := (pressureBound_le_target targetBytes capBytes).trans
          (UInt64.le_iff_toNat_le.mp (UInt64.not_lt.mp short))
        apply Settles.of_ends ⟨pressed, fun _ => le_antisymm pressed.bounded reached⟩
        intro turns
        rw [pressureLoop, if_neg short]

/-- Host pressure ends, holds what it says it holds, stays within the target and the cap, and
reaches the lower of them if `malloc` never fails. The cap need not be small. -/
theorem applyHostPressure_exact (malloc : Nat → UInt64 → Bool) (targetBytes capBytes : UInt64)
    (targetSmall : targetBytes.toNat ≤ 2 ^ 63) :
    ∃ out total,
      (∀ turns, targetBytes.toNat < turns →
        applyHostPressure malloc turns targetBytes capBytes = some (out, total)) ∧
      total.toNat = (out.map fun allocation => allocation.bytes.toNat).sum ∧
      (∀ allocation ∈ out, allocation.held = true ∧ allocation.bytes ≠ 0) ∧
      total ≤ targetBytes ∧ (capBytes ≠ 0 → total ≤ capBytes) ∧
      ((∀ turn bytes, malloc turn bytes = true) →
        total.toNat = if capBytes = 0 then targetBytes.toNat
          else min targetBytes.toNat capBytes.toNat) := by
  have nothing : Pressed targetBytes capBytes [] 0 :=
    ⟨rfl, fun _ none => absurd none List.not_mem_nil, Nat.zero_le _⟩
  obtain ⟨out, total, ⟨pressed, reaches⟩, enough⟩ :=
    pressureLoop_settles malloc 0 targetSmall nothing
  have within := pressed.bounded
  refine ⟨out, total, fun turns many => enough turns ?_, pressed.sums, pressed.nonempty, ?_, ?_,
    reaches⟩
  · have := pressureBound_le_target targetBytes capBytes
    omega
  · exact UInt64.le_iff_toNat_le.mpr (within.trans (pressureBound_le_target _ _))
  · exact fun limited =>
      UInt64.le_iff_toNat_le.mpr (within.trans (pressureBound_le_cap _ limited))

/-- A target of 20 MiB under a cap of 10 MiB. -/
theorem applyHostPressure_exact_capped :
    ∃ out total,
      (∀ turns, 20 * 1024 * 1024 < turns →
        applyHostPressure (fun _ _ => true) turns (20 * 1024 * 1024) (10 * 1024 * 1024) =
          some (out, total)) ∧
      total = 10 * 1024 * 1024 := by
  obtain ⟨out, total, ended, _, _, _, _, reaches⟩ := applyHostPressure_exact (fun _ _ => true)
    (20 * 1024 * 1024) (10 * 1024 * 1024) (by decide)
  exact ⟨out, total, ended, UInt64.toNat_inj.mp (reaches fun _ _ => rfl)⟩

end Pressure

section Tracker

inductive OwnedResource where
  | childProcesses
  | openSockets
  | hostBytes
  | deviceBytes
  | tempFiles
  | threads
deriving DecidableEq

namespace ResourceCounts

def count (counts : ResourceCounts) : OwnedResource → Nat
  | .childProcesses => counts.childProcesses.toNat
  | .openSockets => counts.openSockets.toNat
  | .hostBytes => counts.hostBytes.toNat
  | .deviceBytes => counts.deviceBytes.toNat
  | .tempFiles => counts.tempFiles.toNat
  | .threads => counts.threads.toNat

theorem ext_count {left right : ResourceCounts}
    (same : ∀ resource, left.count resource = right.count resource) : left = right := by
  cases left
  cases right
  congr
  · exact UInt64.toNat_inj.mp (same .childProcesses)
  · exact UInt64.toNat_inj.mp (same .openSockets)
  · exact UInt64.toNat_inj.mp (same .hostBytes)
  · exact UInt64.toNat_inj.mp (same .deviceBytes)
  · exact UInt64.toNat_inj.mp (same .tempFiles)
  · exact UInt64.toNat_inj.mp (same .threads)

theorem toNat_max (left right : UInt64) :
    (Max.max left right).toNat = Max.max left.toNat right.toNat := by
  simp only [UInt64.max_def, Nat.max_def, UInt64.le_iff_toNat_le]
  exact apply_ite UInt64.toNat _ _ _

theorem count_max (pk now : ResourceCounts) (resource : OwnedResource) :
    (pk.max now).count resource = Max.max (pk.count resource) (now.count resource) := by
  cases resource <;> exact toNat_max _ _

end ResourceCounts

theorem leaked_eq_true_iff {before after : UInt64} :
    leaked before after = true ↔ before.toNat < after.toNat := by
  have positive (above : before < after) : after ≠ 0 := by
    rintro rfl
    exact UInt64.not_lt_zero above
  simp only [leaked, Bool.and_eq_true, decide_eq_true_eq, gt_iff_lt, ← UInt64.lt_iff_toNat_lt]
  exact and_iff_left_of_imp positive

namespace ResourceBaselineTracker

def observeAll (snapshots : List ResourceCounts) : ResourceBaselineTracker :=
  snapshots.foldl observe {}

theorem observe_leak (tracker : ResourceBaselineTracker) (now : ResourceCounts) :
    (tracker.observe now).baseline.leak = true ↔ ∃ resource,
      (tracker.observe now).baseline.before.count resource < now.count resource := by
  simp only [observe, Bool.or_eq_true, leaked_eq_true_iff]
  constructor
  · rintro (((((more | more) | more) | more) | more) | more)
    · exact ⟨.childProcesses, more⟩
    · exact ⟨.openSockets, more⟩
    · exact ⟨.hostBytes, more⟩
    · exact ⟨.tempFiles, more⟩
    · exact ⟨.threads, more⟩
    · exact ⟨.deviceBytes, more⟩
  · rintro ⟨resource, more⟩
    cases resource with
    | childProcesses => exact .inl (.inl (.inl (.inl (.inl more))))
    | openSockets => exact .inl (.inl (.inl (.inl (.inr more))))
    | hostBytes => exact .inl (.inl (.inl (.inr more)))
    | tempFiles => exact .inl (.inl (.inr more))
    | threads => exact .inl (.inr more)
    | deviceBytes => exact .inr more

theorem observeAll_concat (snapshots : List ResourceCounts) (now : ResourceCounts) :
    observeAll (snapshots ++ [now]) = (observeAll snapshots).observe now := by
  rw [observeAll, List.foldl_append]
  rfl

variable (first : ResourceCounts) (rest : List ResourceCounts)

theorem observeAll_captured : (observeAll (first :: rest)).captured = true ∧
    (observeAll (first :: rest)).baseline.before = first := by
  induction rest using List.reverseRecOn with
  | nil => exact ⟨rfl, rfl⟩
  | append_singleton earlier now ih =>
      rw [← List.cons_append, observeAll_concat]
      exact ⟨rfl, (if_pos ih.1).trans ih.2⟩

theorem observeAll_after : (observeAll (first :: rest)).baseline.after =
    (first :: rest).getLast (List.cons_ne_nil _ _) := by
  induction rest using List.reverseRecOn with
  | nil => rfl
  | append_singleton earlier now _ =>
      simp only [← List.cons_append, observeAll_concat, List.getLast_append_singleton]
      rfl

theorem observeAll_leak : (observeAll (first :: rest)).baseline.leak = true ↔ ∃ resource,
    first.count resource <
      ((first :: rest).getLast (List.cons_ne_nil _ _)).count resource := by
  rw [← observeAll_after]
  rcases List.eq_nil_or_concat (first :: rest) with empty | ⟨earlier, now, whole⟩
  · cases empty
  · have before := (observeAll_captured first rest).2
    rw [whole, List.concat_eq_append, observeAll_concat] at before ⊢
    rw [observe_leak, before]
    rfl

/-- The levels of a resource on the way are what the snapshots say of it. -/
theorem reached_observe (resource : OwnedResource) :
    Foundation.reached observe (fun tracker => tracker.baseline.after.count resource)
        (observe {} first) rest =
      {value | ∃ now ∈ first :: rest, now.count resource = value} := by
  induction rest using List.reverseRecOn with
  | nil =>
      ext value
      simp [Foundation.reached, observe]
  | append_singleton earlier now ih =>
      rw [Foundation.reached_concat, ih, ← List.cons_append, List.foldl_append]
      ext value
      simp only [Set.mem_insert_iff, Set.mem_ofPred_eq, List.mem_append, List.mem_singleton,
        or_and_right, exists_or, exists_eq_left]
      rw [or_comm, eq_comm]
      rfl

theorem observeAll_peak (resource : OwnedResource) :
    IsGreatest {value | ∃ now ∈ first :: rest, now.count resource = value}
      ((observeAll (first :: rest)).baseline.peak.count resource) := by
  have follows : Foundation.Follows observe
      (fun tracker => tracker.baseline.after.count resource)
      (fun tracker => tracker.baseline.peak.count resource) :=
    fun _ _ _ => ResourceCounts.count_max _ _ _
  have initial : first.count resource =
      ((({} : ResourceBaselineTracker).observe first).baseline.peak).count resource := by
    have nothing : ({} : ResourceCounts).count resource = 0 := by cases resource <;> rfl
    change _ = (ResourceCounts.max {} first).count resource
    rw [ResourceCounts.count_max, nothing, Nat.zero_max]
  rw [← reached_observe]
  exact Foundation.isGreatest_reached follows initial rest

end ResourceBaselineTracker

open ResourceBaselineTracker in
/-- The verdict of a tracker compares the last snapshot with the first, and its peak is the
highest of them all in whatever order they came. -/
theorem observe_exact (first : ResourceCounts) (rest : List ResourceCounts) :
    (observeAll (first :: rest)).baseline.before = first ∧
    (observeAll (first :: rest)).baseline.after =
      (first :: rest).getLast (List.cons_ne_nil _ _) ∧
    (∀ resource, IsGreatest {value | ∃ now ∈ first :: rest, now.count resource = value}
      ((observeAll (first :: rest)).baseline.peak.count resource)) ∧
    ((observeAll (first :: rest)).baseline.leak = true ↔ ∃ resource,
      first.count resource <
        ((first :: rest).getLast (List.cons_ne_nil _ _)).count resource) ∧
    (∀ others, (first :: others).getLast (List.cons_ne_nil _ _) =
        (first :: rest).getLast (List.cons_ne_nil _ _) →
      (observeAll (first :: others)).baseline.leak =
        (observeAll (first :: rest)).baseline.leak) ∧
    ∀ start others, (start :: others).Perm (first :: rest) →
      (observeAll (start :: others)).baseline.peak = (observeAll (first :: rest)).baseline.peak := by
  refine ⟨(observeAll_captured first rest).2, observeAll_after first rest,
    observeAll_peak first rest, observeAll_leak first rest, fun others sameLast => ?_,
    fun start others reordered => ?_⟩
  · rw [Bool.eq_iff_iff, observeAll_leak, observeAll_leak, sameLast]
  · apply ResourceCounts.ext_count
    intro resource
    have highest := observeAll_peak start others resource
    simp only [reordered.mem_iff] at highest
    exact highest.unique (observeAll_peak first rest resource)

end Tracker

end ChaosLab
