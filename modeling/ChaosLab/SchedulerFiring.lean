import ChaosLab.Foundation.Latch
import ChaosLab.SchedulerProperties

/-! Which injections a trace of observations fires, and what the calls report. -/

set_option autoImplicit false

namespace ChaosLab

namespace ScheduledInjection

variable (injection : ScheduledInjection)

/-- An injection without a name takes every name. -/
def takes (name : Bytes) : Bool :=
  decide (injection.triggerName = [] ∨ injection.triggerName = name)

/-- An event of this name, observed for the `count`-th time, fires the injection if it has not
fired yet. -/
def due (name : Bytes) (count : UInt64) : Bool :=
  injection.takes name && decide (injection.trigger = .eventCount → injection.atCount ≤ count)

def fire (now : Bool) : ScheduledInjection :=
  { injection with fired := injection.fired || now }

theorem fire_eq_self {now : Bool} (already : now = true → injection.fired = true) :
    injection.fire now = injection := by
  have same : (injection.fired || now) = injection.fired := by
    cases now with
    | false => exact Bool.or_false _
    | true => rw [already rfl, Bool.true_or]
  rw [fire, same]

@[simp]
theorem fire_fire (first second : Bool) :
    (injection.fire first).fire second = injection.fire (first || second) := by
  simp only [fire, Bool.or_assoc]

@[simp]
theorem due_fire (now : Bool) (name : Bytes) (count : UInt64) :
    (injection.fire now).due name count = injection.due name count := rfl

@[simp]
theorem trigger_fire (now : Bool) : (injection.fire now).trigger = injection.trigger := rfl

theorem armed_eq_true_iff (trigger : TriggerKind) (name : Bytes) (count : UInt64) :
    injection.armed trigger name count = true ↔
      injection.fired = false ∧ injection.trigger = trigger ∧ injection.due name count = true := by
  unfold armed
  split_ifs with already other unnamed early
  · simp [already]
  · simp [other]
  · simp [due, takes, unnamed]
  · obtain ⟨rfl, less⟩ := early
    have never : ¬ (injection.trigger = .eventCount ∧ injection.due name count = true) := by
      intro both
      obtain ⟨kind, ready⟩ := both
      simp only [due, Bool.and_eq_true, decide_eq_true_eq] at ready
      exact absurd (ready.2 kind) (UInt64.not_le.mpr less)
    simp [never]
  · rw [not_not] at other
    subst other
    have ready : injection.due name count = true := by
      simp only [due, takes, Bool.and_eq_true, decide_eq_true_eq]
      exact ⟨by tauto, fun kind => UInt64.not_lt.mp fun less => early ⟨kind, less⟩⟩
    simp [already, ready]

end ScheduledInjection

section Passes

variable (trigger : TriggerKind) (name : Bytes) (count : UInt64)

theorem fireArmed_schedule (schedule : List ScheduledInjection) :
    (fireArmed trigger name count schedule).2 =
      schedule.map fun injection =>
        injection.fire (decide (injection.trigger = trigger) && injection.due name count) := by
  induction schedule with
  | nil => rfl
  | cons injection schedule ih =>
      rw [fireArmed, List.map_cons]
      cases armed : injection.armed trigger name count with
      | true =>
          obtain ⟨-, kind, ready⟩ := (injection.armed_eq_true_iff _ _ _).mp armed
          simp [ih, ScheduledInjection.fire, kind, ready]
      | false =>
          have idle := mt (injection.armed_eq_true_iff trigger name count).mpr (by simp [armed])
          have already : (decide (injection.trigger = trigger) &&
              injection.due name count) = true → injection.fired = true := by
            rw [Bool.and_eq_true, decide_eq_true_eq]
            intro ready
            exact Bool.of_not_eq_false fun clear => idle ⟨clear, ready⟩
          simp [ih, injection.fire_eq_self already]

theorem fireArmed_latched (schedule : List ScheduledInjection) :
    Foundation.Latched ScheduledInjection.fired ScheduledInjection.id schedule
      (fireArmed trigger name count schedule).1 (fireArmed trigger name count schedule).2 := by
  induction schedule with
  | nil => exact .refl []
  | cons injection schedule ih =>
      rw [fireArmed]
      cases armed : injection.armed trigger name count with
      | true =>
          have clear := ((injection.armed_eq_true_iff _ _ _).mp armed).1
          exact .cons_set clear rfl rfl ih
      | false => exact .cons_unchanged injection ih

end Passes

theorem mem_triggerKinds (kind : TriggerKind) : kind ∈ triggerKinds := by
  cases kind <;> decide

theorem bumpCount_fst (event : Bytes) (counts : List (Bytes × UInt64)) :
    (bumpCount event counts).1 = countOf event counts + 1 := by
  induction counts with
  | nil => rfl
  | cons entry counts ih =>
      rw [bumpCount, countOf]
      split_ifs with same
      · rfl
      · exact ih

theorem countOf_bumpCount (event name : Bytes) (counts : List (Bytes × UInt64)) :
    countOf name (bumpCount event counts).2 =
      if name = event then countOf event counts + 1 else countOf name counts := by
  induction counts with
  | nil =>
      by_cases same : name = event
      · simp [bumpCount, countOf, same]
      · simp [bumpCount, countOf, same, Ne.symm same]
  | cons entry counts ih =>
      rw [bumpCount]
      by_cases found : entry.1 = event
      · subst found
        by_cases same : name = entry.1
        · simp [countOf, same]
        · simp [countOf, same, Ne.symm same]
      · by_cases here : entry.1 = name
        · subst here
          simp [countOf, found]
        · simp [countOf, found, here, ih]

namespace FaultScheduler

variable (scheduler : FaultScheduler)

@[simp]
theorem tryFireEach_counts (event : Bytes) (count : UInt64) (kinds : List TriggerKind) :
    (tryFireEach event count scheduler kinds).2.counts = scheduler.counts := by
  induction kinds generalizing scheduler with
  | nil => rfl
  | cons kind kinds ih =>
      rw [tryFireEach, ih]
      rfl

theorem tryFireEach_schedule (event : Bytes) (count : UInt64) (kinds : List TriggerKind) :
    (tryFireEach event count scheduler kinds).2.schedule =
      scheduler.schedule.map fun injection =>
        injection.fire (decide (injection.trigger ∈ kinds) && injection.due event count) := by
  induction kinds generalizing scheduler with
  | nil => simp [tryFireEach, ScheduledInjection.fire]
  | cons kind kinds ih =>
      rw [tryFireEach, ih, tryFire, fireArmed_schedule, List.map_map]
      apply List.map_congr_left
      intro injection _
      rw [Function.comp_apply, ScheduledInjection.fire_fire, ScheduledInjection.due_fire,
        ScheduledInjection.trigger_fire, ← Bool.and_or_distrib_right]
      simp only [List.mem_cons, Bool.decide_or]

theorem observeEvent_schedule (event : Bytes) :
    (scheduler.observeEvent event).2.schedule =
      scheduler.schedule.map fun injection =>
        injection.fire (injection.due event (scheduler.eventCount event + 1)) := by
  rw [observeEvent, tryFireEach_schedule, bumpCount_fst]
  apply List.map_congr_left
  intro injection _
  rw [decide_eq_true (mem_triggerKinds injection.trigger), Bool.true_and]
  rfl

theorem eventCount_observeEvent (event name : Bytes) :
    (scheduler.observeEvent event).2.eventCount name =
      if name = event then scheduler.eventCount event + 1 else scheduler.eventCount name := by
  rw [eventCount, observeEvent, tryFireEach_counts, countOf_bumpCount]
  rfl

theorem tryFireEach_latched (event : Bytes) (count : UInt64) (kinds : List TriggerKind) :
    Foundation.Latched ScheduledInjection.fired ScheduledInjection.id scheduler.schedule
      (tryFireEach event count scheduler kinds).1
      (tryFireEach event count scheduler kinds).2.schedule := by
  induction kinds generalizing scheduler with
  | nil => exact .refl _
  | cons kind kinds ih =>
      rw [tryFireEach]
      exact .trans (fireArmed_latched kind event count scheduler.schedule)
        (ih (scheduler.tryFire kind event count).2)

/-- One call: nothing that has fired is taken back, and the call returns what it fires. -/
theorem observe_latched (observation : Observation) :
    Foundation.Latched ScheduledInjection.fired ScheduledInjection.id scheduler.schedule
      (scheduler.observe observation).1 (scheduler.observe observation).2.schedule := by
  cases observation with
  | event name => exact tryFireEach_latched _ name _ triggerKinds
  | state target name => exact fireArmed_latched .stateTransition name 1 scheduler.schedule
  | message name => exact fireArmed_latched .protocolMessage name 1 scheduler.schedule

theorem observeAll_latched (trace : List Observation) :
    Foundation.Latched ScheduledInjection.fired ScheduledInjection.id scheduler.schedule
      (scheduler.observeAll trace).1 (scheduler.observeAll trace).2.schedule := by
  induction trace generalizing scheduler with
  | nil => exact .refl _
  | cons observation trace ih =>
      rw [observeAll]
      exact .trans (scheduler.observe_latched observation) (ih _)

theorem observeAll_append (first later : List Observation) :
    (scheduler.observeAll (first ++ later)).2 =
      ((scheduler.observeAll first).2.observeAll later).2 := by
  induction first generalizing scheduler with
  | nil => rfl
  | cons observation first ih => rw [List.cons_append, observeAll, observeAll, ih]

end FaultScheduler

/-- Whether an observation of the trace is one that fires the injection. The count of an event
is its count in the whole trace: it was reached at the last of the observations. -/
def Observation.fires (trace : List Observation) (injection : ScheduledInjection) :
    Observation → Bool
  | .event name => injection.takes name &&
      decide (injection.trigger = .eventCount →
        injection.atCount.toNat ≤ trace.count (.event name))
  | .state _ name => decide (injection.trigger = .stateTransition) && injection.takes name
  | .message name => decide (injection.trigger = .protocolMessage) && injection.takes name

def FiredBy (trace : List Observation) (injection : ScheduledInjection) : Bool :=
  trace.any (Observation.fires trace injection)

theorem fires_mono {trace longer : List Observation} {injection : ScheduledInjection}
    {observation : Observation} (counts : ∀ other, trace.count other ≤ longer.count other)
    (fires : observation.fires trace injection = true) :
    observation.fires longer injection = true := by
  cases observation with
  | event name =>
      simp only [Observation.fires, Bool.and_eq_true, decide_eq_true_eq] at fires ⊢
      exact ⟨fires.1, fun counted => (fires.2 counted).trans (counts _)⟩
  | state target name => exact fires
  | message name => exact fires

theorem fires_of_perm {trace other : List Observation} (reordered : trace.Perm other)
    (injection : ScheduledInjection) :
    Observation.fires trace injection = Observation.fires other injection := by
  funext observation
  cases observation with
  | event name => simp only [Observation.fires, reordered.count_eq]
  | state target name => rfl
  | message name => rfl

theorem firedBy_of_perm {trace other : List Observation} (reordered : trace.Perm other)
    (injection : ScheduledInjection) : FiredBy trace injection = FiredBy other injection := by
  rw [FiredBy, FiredBy, fires_of_perm reordered, reordered.any_eq]

/-- Only the count of the observation that comes last changes. -/
theorem firedBy_concat (trace : List Observation) (observation : Observation)
    (injection : ScheduledInjection) :
    FiredBy (trace ++ [observation]) injection =
      (FiredBy trace injection || observation.fires (trace ++ [observation]) injection) := by
  rw [Bool.eq_iff_iff, Bool.or_eq_true, FiredBy, FiredBy, List.any_append, Bool.or_eq_true,
    List.any_cons, List.any_nil, Bool.or_false]
  constructor
  · intro fired
    cases fired with
    | inr last => exact .inr last
    | inl early =>
        obtain ⟨earlier, member, fires⟩ := List.any_eq_true.mp early
        by_cases same : earlier = observation
        · subst same
          exact .inr fires
        · left
          refine List.any_eq_true.mpr ⟨earlier, member, ?_⟩
          cases earlier with
          | event name =>
              have unchanged : (trace ++ [observation]).count (.event name) =
                  trace.count (.event name) := by
                rw [List.count_append, List.count_singleton, if_neg (by simpa using Ne.symm same),
                  Nat.add_zero]
              simpa only [Observation.fires, unchanged] using fires
          | state target name => exact fires
          | message name => exact fires
  · intro fired
    cases fired with
    | inr last => exact .inr last
    | inl early =>
        obtain ⟨earlier, member, fires⟩ := List.any_eq_true.mp early
        refine .inl (List.any_eq_true.mpr ⟨earlier, member, fires_mono ?_ fires⟩)
        intro other
        rw [List.count_append]
        exact Nat.le_add_right _ _

namespace FaultScheduler

/-- What a trace has left of a plan. -/
structure Follows (planned : FaultScheduler) (trace : List Observation)
    (scheduler : FaultScheduler) : Prop where
  counted : ∀ name, (scheduler.eventCount name).toNat = trace.count (.event name)
  fired : scheduler.schedule =
    planned.schedule.map fun injection => injection.fire (FiredBy trace injection)

theorem eventCount_observe (scheduler : FaultScheduler) (observation : Observation)
    (name : Bytes) :
    (scheduler.observe observation).2.eventCount name =
      if observation = .event name then scheduler.eventCount name + 1
      else scheduler.eventCount name := by
  cases observation with
  | event event =>
      rw [observe, eventCount_observeEvent]
      by_cases same : name = event
      · simp [same]
      · simp [same, Ne.symm same]
  | state target state => rfl
  | message message => rfl

theorem Follows.counted_observe {planned scheduler : FaultScheduler}
    {trace : List Observation} (follows : Follows planned trace scheduler)
    (observation : Observation) (short : trace.length + 1 < 2 ^ 64) (name : Bytes) :
    ((scheduler.observe observation).2.eventCount name).toNat =
      (trace ++ [observation]).count (.event name) := by
  have bound : trace.count (.event name) ≤ trace.length := List.count_le_length
  have counted := follows.counted name
  rw [eventCount_observe, List.count_append, List.count_singleton]
  by_cases same : observation = .event name
  · rw [if_pos same, if_pos (by simp [same]), UInt64.toNat_add, counted]
    exact Nat.mod_eq_of_lt (by simp only [UInt64.toNat_one]; omega)
  · rw [if_neg same, if_neg (by simpa using same), counted, Nat.add_zero]

theorem due_eq_takes {kind : TriggerKind} (uncounted : kind ≠ .eventCount) (name : Bytes)
    (injection : ScheduledInjection) :
    (decide (injection.trigger = kind) && injection.due name 1) =
      (decide (injection.trigger = kind) && injection.takes name) := by
  by_cases same : injection.trigger = kind
  · simp [ScheduledInjection.due, same, uncounted]
  · simp [same]

theorem Follows.schedule_observe {planned scheduler : FaultScheduler}
    {trace : List Observation} (follows : Follows planned trace scheduler)
    (observation : Observation) (short : trace.length + 1 < 2 ^ 64) :
    (scheduler.observe observation).2.schedule =
      scheduler.schedule.map fun injection =>
        injection.fire (observation.fires (trace ++ [observation]) injection) := by
  cases observation with
  | event name =>
      have counted := follows.counted_observe (.event name) short name
      rw [eventCount_observe, if_pos rfl] at counted
      rw [observe, observeEvent_schedule]
      simp only [ScheduledInjection.due, Observation.fires, UInt64.le_iff_toNat_le, counted]
  | state target name =>
      rw [observe, observeState, tryFire, fireArmed_schedule]
      simp only [due_eq_takes (by decide : TriggerKind.stateTransition ≠ .eventCount)]
      rfl
  | message name =>
      rw [observe, observeMessage, tryFire, fireArmed_schedule]
      simp only [due_eq_takes (by decide : TriggerKind.protocolMessage ≠ .eventCount)]
      rfl

/-- One more observation. -/
theorem Follows.observe {planned scheduler : FaultScheduler} {trace : List Observation}
    (follows : Follows planned trace scheduler) (observation : Observation)
    (short : trace.length + 1 < 2 ^ 64) :
    Follows planned (trace ++ [observation]) (scheduler.observe observation).2 where
  counted := follows.counted_observe observation short
  fired := by
    rw [follows.schedule_observe observation short, follows.fired, List.map_map]
    apply List.map_congr_left
    intro injection _
    rw [Function.comp_apply, ScheduledInjection.fire_fire, firedBy_concat]
    rfl

/-- Every trace that is not too long to count. -/
theorem follows_observeAll {planned : FaultScheduler} (fresh : planned.counts = [])
    {trace : List Observation} (short : trace.length < 2 ^ 64) :
    Follows planned trace (planned.observeAll trace).2 := by
  induction trace using List.reverseRecOn with
  | nil =>
      refine ⟨fun name => ?_, ?_⟩
      · rw [observeAll, eventCount, fresh]
        rfl
      · simp [observeAll, FiredBy, ScheduledInjection.fire]
  | append_singleton trace observation ih =>
      rw [List.length_append, List.length_singleton] at short
      rw [observeAll_append]
      exact (ih (by omega)).observe observation short

end FaultScheduler

/-- When a trace fires an injection that has a name. -/
def Triggered (trace : List Observation) (injection : ScheduledInjection) : Prop :=
  match injection.trigger with
  | .eventCount => max 1 injection.atCount.toNat ≤ trace.count (.event injection.triggerName)
  | .stateTransition => .event injection.triggerName ∈ trace ∨
      ∃ target, .state target injection.triggerName ∈ trace
  | .protocolMessage => .event injection.triggerName ∈ trace ∨
      .message injection.triggerName ∈ trace
  | _ => .event injection.triggerName ∈ trace

theorem firedBy_eq_true_iff {trace : List Observation} {injection : ScheduledInjection}
    (named : injection.triggerName ≠ []) :
    FiredBy trace injection = true ↔
      (.event injection.triggerName ∈ trace ∧ (injection.trigger = .eventCount →
          injection.atCount.toNat ≤ trace.count (.event injection.triggerName))) ∨
        (injection.trigger = .stateTransition ∧
          ∃ target, .state target injection.triggerName ∈ trace) ∨
        (injection.trigger = .protocolMessage ∧ .message injection.triggerName ∈ trace) := by
  rw [FiredBy, List.any_eq_true]
  constructor
  · intro fired
    obtain ⟨observation, member, fires⟩ := fired
    cases observation with
    | event name =>
        simp only [Observation.fires, ScheduledInjection.takes, named, false_or,
          Bool.and_eq_true, decide_eq_true_eq] at fires
        obtain ⟨rfl, counted⟩ := fires
        exact .inl ⟨member, counted⟩
    | state target name =>
        simp only [Observation.fires, ScheduledInjection.takes, named, false_or,
          Bool.and_eq_true, decide_eq_true_eq] at fires
        obtain ⟨kind, rfl⟩ := fires
        exact .inr (.inl ⟨kind, target, member⟩)
    | message name =>
        simp only [Observation.fires, ScheduledInjection.takes, named, false_or,
          Bool.and_eq_true, decide_eq_true_eq] at fires
        obtain ⟨kind, rfl⟩ := fires
        exact .inr (.inr ⟨kind, member⟩)
  · intro fired
    rcases fired with ⟨member, counted⟩ | ⟨kind, target, member⟩ | ⟨kind, member⟩
    · refine ⟨_, member, ?_⟩
      simp only [Observation.fires, ScheduledInjection.takes, or_true, decide_true,
        Bool.true_and, decide_eq_true_eq]
      exact counted
    · refine ⟨_, member, ?_⟩
      simpa [Observation.fires, ScheduledInjection.takes] using kind
    · refine ⟨_, member, ?_⟩
      simpa [Observation.fires, ScheduledInjection.takes] using kind

theorem firedBy_iff_triggered {trace : List Observation} {injection : ScheduledInjection}
    (named : injection.triggerName ≠ []) :
    FiredBy trace injection = true ↔ Triggered trace injection := by
  rw [firedBy_eq_true_iff named, Triggered]
  cases kind : injection.trigger with
  | eventCount =>
      rw [Nat.max_le, ← List.count_pos_iff]
      simp
  | _ => simp

theorem fired_plan (scheduler : FaultScheduler) (campaign : ChaosCampaign) :
    ∀ injection ∈ (scheduler.plan campaign).schedule, injection.fired = false := by
  rw [FaultScheduler.plan]
  generalize SplitMix64.mk scheduler.seed = rng
  generalize (0 : UInt64) = order
  induction campaign.faultSchedule generalizing rng order with
  | nil => simp [planFrom]
  | cons fault faults ih =>
      rw [planFrom, List.forall_mem_cons]
      exact ⟨rfl, ih _ _⟩

/-- The injection is the one planned for the fault, whether or not it has fired. -/
def Schedules (fault : FaultSpec) (injection : ScheduledInjection) : Prop :=
  ∃ id order, injection = (planFault fault id order).fire injection.fired

theorem Schedules.fire {fault : FaultSpec} {injection : ScheduledInjection}
    (schedules : Schedules fault injection) (now : Bool) :
    Schedules fault (injection.fire now) := by
  obtain ⟨id, order, planned⟩ := schedules
  refine ⟨id, order, ?_⟩
  rw [planned]
  rfl

theorem schedules_planFrom (rng : SplitMix64) (order : UInt64) (faults : List FaultSpec) :
    List.Forall₂ Schedules faults (planFrom rng order faults) := by
  induction faults generalizing rng order with
  | nil => exact .nil
  | cons fault faults ih => exact .cons ⟨_, _, rfl⟩ (ih _ _)

/-- There is one injection for each fault, with its fault's trigger. The trace alone says
which have fired, and the order of its calls does not matter. -/
theorem firing_law (scheduler : FaultScheduler) (campaign : ChaosCampaign)
    (trace : List Observation) (short : trace.length < 2 ^ 64) :
    List.Forall₂ Schedules campaign.faultSchedule
        ((scheduler.plan campaign).observeAll trace).2.schedule ∧
      (∀ injection ∈ ((scheduler.plan campaign).observeAll trace).2.schedule,
        injection.triggerName ≠ [] →
          (injection.fired = true ↔ Triggered trace injection)) ∧
      (∀ name, (((scheduler.plan campaign).observeAll trace).2.eventCount name).toNat =
        trace.count (.event name)) ∧
      ∀ other : List Observation, trace.Perm other →
        ((scheduler.plan campaign).observeAll other).2.schedule =
          ((scheduler.plan campaign).observeAll trace).2.schedule := by
  have follows := FaultScheduler.follows_observeAll
    (rfl : (scheduler.plan campaign).counts = []) short
  refine ⟨?_, ?_, follows.counted, ?_⟩
  · rw [follows.fired, List.forall₂_map_right_iff]
    exact (schedules_planFrom _ _ _).imp fun _ _ schedules => schedules.fire _
  · intro injection member named
    rw [follows.fired] at member
    obtain ⟨before, planned, rfl⟩ := List.mem_map.mp member
    have clear := fired_plan scheduler campaign before planned
    rw [← firedBy_iff_triggered named, ScheduledInjection.fire, clear, Bool.false_or]
    rfl
  · intro other reordered
    have alike := FaultScheduler.follows_observeAll
      (rfl : (scheduler.plan campaign).counts = []) (reordered.length_eq ▸ short)
    rw [alike.fired, follows.fired]
    simp only [firedBy_of_perm reordered]

theorem firing_law_two_events :
    let left := ((FaultScheduler.plan { seed := 7 }
      { seed := 1, faultSchedule := [{ category := .socketReset }] }).observeAll
        [.event [Byte.colon], .message (ascii "protocol_message"), .event [Byte.colon]]).2
    (left.eventCount [Byte.colon]).toNat = 2 ∧
      ∃ injection, left.schedule = [injection] ∧ injection.trigger = .protocolMessage ∧
        injection.fired = true := by
  intro left
  obtain ⟨scheduled, fired, counted, -⟩ := firing_law { seed := 7 }
    { seed := 1, faultSchedule := [{ category := .socketReset }] }
    [.event [Byte.colon], .message (ascii "protocol_message"), .event [Byte.colon]] (by decide)
  obtain ⟨injection, others, ⟨id, order, planned⟩, rest, schedule⟩ :=
    List.forall₂_cons_left_iff.mp scheduled
  rw [List.forall₂_nil_left_iff.mp rest] at schedule
  have name : injection.triggerName = ascii "protocol_message" := by
    rw [planned]
    rfl
  have kind : injection.trigger = .protocolMessage := by
    rw [planned]
    rfl
  refine ⟨counted _, injection, schedule, kind, ?_⟩
  refine (fired injection (by rw [schedule]; exact List.mem_singleton_self _) ?_).mpr ?_
  · rw [name]
    decide
  · rw [Triggered, kind, name]
    exact .inr (by decide)

/-- The injections have the numbers that the stream gives their faults, and every id is
returned once, by the call that fires its injection. -/
theorem firing_accounted (scheduler : FaultScheduler) (campaign : ChaosCampaign)
    (few : campaign.faultSchedule.length < 2 ^ 64) (trace : List Observation) :
    let planned := scheduler.plan campaign
    let returned := (planned.observeAll trace).1
    let final := (planned.observeAll trace).2
    final.schedule.map ScheduledInjection.id = (List.range campaign.faultSchedule.length).map
        (fun calls => ⟨(SplitMix64.mk scheduler.seed).output calls⟩) ∧
      returned.Nodup ∧
      (∀ id, id ∈ returned ↔ ∃ injection ∈ final.schedule, injection.fired = true ∧
        injection.id = id) ∧
      returned.length = final.firedCount ∧
      (final.allFired = true ↔ returned.length = final.schedule.length) ∧
      ∀ later : List Observation, List.Forall₂
        (fun old new => new.id = old.id ∧ (old.fired = true → new.fired = true))
        final.schedule (planned.observeAll (trace ++ later)).2.schedule := by
  intro planned returned final
  have latched := planned.observeAll_latched trace
  have account : returned.Perm
      ((final.schedule.filter ScheduledInjection.fired).map ScheduledInjection.id) :=
    latched.report_perm (fired_plan scheduler campaign)
  have ids : final.schedule.map ScheduledInjection.id =
      planned.schedule.map ScheduledInjection.id :=
    Foundation.map_key_of_forall₂_stays latched.kept
  have distinct : (final.schedule.map ScheduledInjection.id).Nodup := by
    rw [ids]
    exact nodup_id_plan scheduler few.le
  have length_eq : returned.length = final.firedCount := by
    rw [account.length_eq, List.length_map, FaultScheduler.firedCount,
      List.countP_eq_length_filter]
  refine ⟨ids.trans (map_id_planFrom _ _ _), ?_, ?_, length_eq, ?_, ?_⟩
  · apply account.nodup_iff.mpr
    exact distinct.sublist (List.filter_sublist.map _)
  · intro id
    simp [account.mem_iff, and_assoc]
  · rw [length_eq, FaultScheduler.firedCount, List.countP_eq_length, FaultScheduler.allFired]
    split_ifs with empty
    · simp [empty]
    · exact List.all_eq_true
  · intro later
    rw [FaultScheduler.observeAll_append]
    exact (final.observeAll_latched later).kept

theorem firing_accounted_state :
    let planned := FaultScheduler.plan { seed := 7 }
      { seed := 1, faultSchedule := [{ category := .restartRace }, {}] }
    let observed := planned.observeAll
      [.state ⟨1⟩ (ascii "state_transition"), .event (ascii "state_transition")]
    ∃ id, observed.1 = [id] ∧ observed.2.firedCount = 1 ∧
      ∃ injection ∈ observed.2.schedule, injection.fired = true ∧ injection.id = id := by
  intro planned observed
  obtain ⟨-, -, returned, counted, -⟩ := firing_accounted { seed := 7 }
    { seed := 1, faultSchedule := [{ category := .restartRace }, {}] } (by decide)
    [.state ⟨1⟩ (ascii "state_transition"), .event (ascii "state_transition")]
  have single : observed.1.length = 1 := by decide +kernel
  obtain ⟨id, only⟩ := List.length_eq_one_iff.mp single
  refine ⟨id, only, counted.symm.trans single, (returned id).mp ?_⟩
  exact only ▸ List.mem_singleton_self id

end ChaosLab
