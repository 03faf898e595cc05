import ChaosLab.Foundation.Misread
import ChaosLab.Foundation.OrderedMap
import ChaosLab.Foundation.Words
import ChaosLab.SchedulerFiring
import ChaosLab.TextProperties

/-! The count at which an event fires an injection, from the decimal text of a
parameter to the observation that reaches it. -/

set_option autoImplicit false

namespace ChaosLab

open Foundation

section Reading

theorem nibble_of_isdigit {byte : UInt8} (digit : isdigit byte = true) :
    nibble byte = some (digitValue byte) := by
  simp only [isdigit, Bool.and_eq_true, decide_eq_true_eq] at digit
  simp [nibble, digit, digitValue]

theorem digitValue_lt_of_isdigit {byte : UInt8} (digit : isdigit byte = true) :
    digitValue byte < 10 := by
  simp only [isdigit, Bool.and_eq_true, decide_eq_true_eq, UInt8.le_iff_toNat_le] at digit
  have high : (0x39 : UInt8).toNat = 57 := rfl
  unfold digitValue
  omega

theorem hexText_toString (value : UInt64) : HexText (toString value) := by
  refine ⟨decimal_ne_nil _, fun byte member => ?_⟩
  rw [nibble_of_isdigit (isdigit_of_mem_decimal member)]
  rfl

/-- The decimal digits of a number, read as hexadecimal ones. -/
theorem hexValue_toString (value : UInt64) :
    hexValue (toString value) = ofDigitsBE 16 ((toString value).map digitValue) := by
  unfold hexValue
  congr 1
  apply List.map_congr_left
  intro byte member
  rw [nibble_of_isdigit (isdigit_of_mem_decimal member), Option.getD_some]

/-- Read in base sixteen, sixteen digits at most, decimal digits denote their
number only if there is one of them. -/
theorem onlyUnits_hexadecimal : OnlyUnits 10 16 (10 ^ 16) 16 := by decide +kernel

theorem fromHex_toString_iff (value : UInt64) :
    fromHex (toString value) = some value ↔ value.toNat ≤ 9 := by
  constructor
  · intro read
    have denoted := congrArg UInt64.toNat (fromHex_eq_some_iff.mp read).2
    have written : ofDigitsBE 10 ((toString value).map digitValue) = value.toNat :=
      decimalValue_decimal _
    rw [hexValue_toString, UInt64.toNat_ofNat', ← written] at denoted
    have small : ∀ digit ∈ (toString value).map digitValue, digit < 10 := by
      intro digit member
      obtain ⟨byte, inside, rfl⟩ := List.mem_map.mp member
      exact digitValue_lt_of_isdigit (isdigit_of_mem_decimal inside)
    have single := onlyUnits_hexadecimal.lt_of_misread (by decide) (by decide) small denoted.symm
    rw [written] at single
    exact Nat.le_of_lt_succ single
  · intro single
    obtain ⟨number, small, rfl⟩ : ∃ number ≤ 9, value = UInt64.ofNat number :=
      ⟨value.toNat, single, UInt64.ofNat_toNat.symm⟩
    interval_cases number <;> decide

end Reading

namespace FaultScheduler

theorem planFrom_getElem? (rng : SplitMix64) (order : UInt64) {faults : List FaultSpec} {i : Nat}
    {fault : FaultSpec} (listed : faults[i]? = some fault) :
    ∃ id order', (planFrom rng order faults)[i]? = some (planFault fault id order') := by
  induction faults generalizing rng order i with
  | nil => simp at listed
  | cons first faults ih =>
      rw [planFrom]
      cases i with
      | zero =>
          rw [List.getElem?_cons_zero, Option.some.injEq] at listed
          exact ⟨_, _, by rw [List.getElem?_cons_zero, listed]⟩
      | succ i => exact ih _ _ listed

variable {planned : FaultScheduler}

/-- The scheduler that a run of observed events leaves. -/
def afterEvents (scheduler : FaultScheduler) (events : List Bytes) : FaultScheduler :=
  (scheduler.observeAll (events.map .event)).2

theorem afterEvents_concat (scheduler : FaultScheduler) (events : List Bytes) (event : Bytes) :
    scheduler.afterEvents (events ++ [event]) =
      ((scheduler.afterEvents events).observeEvent event).2 := by
  rw [afterEvents, List.map_append, observeAll_append, List.map_singleton, observeAll, observeAll,
    observe, afterEvents]

/-- The count of an event wraps. -/
theorem eventCount_afterEvents (fresh : planned.counts = []) (events : List Bytes) (name : Bytes) :
    (planned.afterEvents events).eventCount name = UInt64.ofNat (events.count name) := by
  induction events using List.reverseRecOn with
  | nil => simp [afterEvents, observeAll, eventCount, fresh, countOf]
  | append_singleton events event ih =>
      rw [afterEvents_concat, eventCount_observeEvent, List.count_append, List.count_singleton]
      by_cases same : name = event
      · subst same
        simp [ih, ofNat_add_one]
      · rw [if_neg same, if_neg (by simpa using Ne.symm same), ih, Nat.add_zero]

/-- Past the first `2 ^ 64` observations the injection has fired, whatever the count
says. -/
theorem reached_concat_iff (atCount : UInt64) (seen : Nat) :
    max 1 atCount.toNat ≤ seen ∨ atCount ≤ UInt64.ofNat (seen + 1) ↔
      max 1 atCount.toNat ≤ seen + 1 := by
  have bound := atCount.toNat_lt
  rw [UInt64.le_iff_toNat_le, UInt64.toNat_ofNat']
  have low := Nat.mod_le (seen + 1) (2 ^ 64)
  constructor
  · intro reached
    omega
  · intro reached
    by_cases earlier : max 1 atCount.toNat ≤ seen
    · exact .inl earlier
    · right
      rw [Nat.mod_eq_of_lt (by omega)]
      omega

/-- An injection that counts a named event fires at the observation its count
names, at the first one if it names none. -/
theorem schedule_afterEvents (fresh : planned.counts = []) {i : Nat}
    {injection : ScheduledInjection} (scheduled : planned.schedule[i]? = some injection)
    (counts : injection.trigger = .eventCount) (named : injection.triggerName ≠ [])
    (events : List Bytes) :
    (planned.afterEvents events).schedule[i]? = some (injection.fire
      (decide (max 1 injection.atCount.toNat ≤ events.count injection.triggerName))) := by
  induction events using List.reverseRecOn with
  | nil => simp [afterEvents, observeAll, scheduled, ScheduledInjection.fire]
  | append_singleton events event ih =>
      rw [afterEvents_concat, observeEvent_schedule, List.getElem?_map, ih, Option.map_some,
        eventCount_afterEvents fresh, ScheduledInjection.fire_fire, ScheduledInjection.due_fire,
        List.count_append, List.count_singleton]
      congr 2
      rw [← ofNat_add_one]
      by_cases same : event = injection.triggerName
      · subst same
        have reached := reached_concat_iff injection.atCount (events.count injection.triggerName)
        simp only [ScheduledInjection.due, ScheduledInjection.takes, counts, or_true, decide_true,
          Bool.true_and, true_imp_iff, beq_self_eq_true, if_true]
        rw [← Bool.decide_or, decide_eq_decide, reached]
      · have other : injection.triggerName ≠ event := Ne.symm same
        simp [ScheduledInjection.due, ScheduledInjection.takes, named, same, other]

end FaultScheduler

section Decimal

/-- Whether the injection in this place has fired after a run of observed events. -/
def FaultScheduler.firedAfter (planned : FaultScheduler) (i : Nat) (events : List Bytes) : Bool :=
  (planned.afterEvents events).schedule[i]?.any ScheduledInjection.fired

/-- The parameters ask for the `count`-th observation of an event, the count in
decimal. -/
structure CountsInDecimal (fault : FaultSpec) (event : Bytes) (count : UInt64) : Prop where
  trigger : fault.param (ascii "trigger") = some (ascii "event_count")
  named : fault.param (ascii "trigger_name") = some event
  counted : fault.param (ascii "at_count") = some (toString count)

theorem CountsInDecimal.planFault {fault : FaultSpec} {event : Bytes} {count : UInt64}
    (asks : CountsInDecimal fault event count) (id order : UInt64) :
    (ChaosLab.planFault fault id order).trigger = .eventCount ∧
      (ChaosLab.planFault fault id order).triggerName = event ∧
      (ChaosLab.planFault fault id order).atCount = UInt64.ofNat (hexValue (toString count)) := by
  have known : triggerNamed (toLower (ascii "event_count")) = some .eventCount := by decide
  have read := fromHex_eq_some_iff.mpr ⟨hexText_toString count, rfl⟩
  refine ⟨?_, ?_, ?_⟩
  · simp only [ChaosLab.planFault, asks.trigger, known, Option.getD_some]
  · simp only [ChaosLab.planFault, FaultSpec.paramOr, asks.named]
  · simp only [ChaosLab.planFault, asks.counted, read, Option.getD_some]

variable (scheduler : FaultScheduler) (campaign : ChaosCampaign) {i : Nat} {fault : FaultSpec}
  {event : Bytes} {count : UInt64}

/-- The digits of the count are read as hexadecimal ones. -/
theorem firedAfter_iff (listed : campaign.faultSchedule[i]? = some fault)
    (asks : CountsInDecimal fault event count) (nonempty : event ≠ []) (events : List Bytes) :
    (scheduler.plan campaign).firedAfter i events = true ↔
      max 1 (UInt64.ofNat (hexValue (toString count))).toNat ≤ events.count event := by
  obtain ⟨id, order, scheduled⟩ :=
    FaultScheduler.planFrom_getElem? ⟨scheduler.seed⟩ 0 listed
  obtain ⟨kind, name, atCount⟩ := asks.planFault id order
  have fresh : (scheduler.plan campaign).counts = [] := rfl
  have after := FaultScheduler.schedule_afterEvents fresh scheduled kind (name ▸ nonempty) events
  have clear : (planFault fault id order).fired = false := rfl
  rw [FaultScheduler.firedAfter, after, Option.any_some, ScheduledInjection.fire, clear,
    Bool.false_or, decide_eq_true_eq, name, atCount]

/-- A count in decimal is met exactly by the injections whose count has one digit. -/
theorem fires_at_decimal_count_iff (listed : campaign.faultSchedule[i]? = some fault)
    (asks : CountsInDecimal fault event count) (nonempty : event ≠ []) (positive : 1 ≤ count) :
    (∀ events, (scheduler.plan campaign).firedAfter i events = true ↔
        count.toNat ≤ events.count event) ↔
      count.toNat ≤ 9 := by
  simp only [firedAfter_iff scheduler campaign listed asks nonempty]
  rw [UInt64.le_iff_toNat_le, UInt64.toNat_one] at positive
  constructor
  · intro met
    have early := met (List.replicate count.toNat event)
    have late := met (List.replicate (max 1 (UInt64.ofNat (hexValue (toString count))).toNat) event)
    rw [List.count_replicate_self] at early late
    have same := Nat.le_antisymm (early.mpr le_rfl) (late.mp le_rfl)
    by_cases zero : (UInt64.ofNat (hexValue (toString count))).toNat = 0
    · rw [zero] at same
      omega
    · rw [max_eq_right (Nat.one_le_iff_ne_zero.mpr zero)] at same
      apply (fromHex_toString_iff count).mp
      exact fromHex_eq_some_iff.mpr ⟨hexText_toString count, (UInt64.toNat_inj.mp same).symm⟩
  · intro single events
    have read := (fromHex_eq_some_iff.mp ((fromHex_toString_iff count).mpr single)).2
    rw [← read, max_eq_right positive]

/-- The parameters of a fault that asks for the `count`-th observation. -/
def countingParams (event : Bytes) (count : UInt64) : Fields :=
  ((({} : Fields).insert (ascii "trigger") (ascii "event_count")).insert
    (ascii "trigger_name") event).insert (ascii "at_count") (toString count)

theorem countsInDecimal_countingParams (event : Bytes) (count : UInt64) :
    CountsInDecimal { params := countingParams event count } event count where
  trigger := by
    simp only [FaultSpec.param, countingParams, getElem?_insert_ite]
    rw [if_neg (by decide), if_neg (by decide), if_pos trivial]
  named := by
    simp only [FaultSpec.param, countingParams, getElem?_insert_ite]
    rw [if_neg (by decide), if_pos trivial]
  counted := by
    simp only [FaultSpec.param, countingParams, getElem?_insert_ite]
    rw [if_pos trivial]

theorem fires_at_decimal_count_iff_nine :
    (FaultScheduler.plan { seed := 7 } { seed := 1, faultSchedule :=
        [{ params := countingParams (ascii "tick") 9 }] }).firedAfter 0
      (List.replicate 9 (ascii "tick")) = true :=
  ((fires_at_decimal_count_iff { seed := 7 } _ rfl (countsInDecimal_countingParams _ 9)
    (by decide) (by decide)).mpr (by decide) _).mpr (by decide)

/-- A tenth observation that is asked for in decimal is awaited until the sixteenth. -/
theorem tenth_observation_does_not_fire :
    ¬ ∀ events, (FaultScheduler.plan { seed := 7 } { seed := 1, faultSchedule :=
          [{ params := countingParams (ascii "tick") 10 }] }).firedAfter 0 events = true ↔
        (10 : UInt64).toNat ≤ events.count (ascii "tick") := by
  intro met
  have tenth := (met (List.replicate 10 (ascii "tick"))).mpr (by decide)
  rw [firedAfter_iff _ _ rfl (countsInDecimal_countingParams _ 10) (by decide)] at tenth
  revert tenth
  decide

end Decimal

end ChaosLab
