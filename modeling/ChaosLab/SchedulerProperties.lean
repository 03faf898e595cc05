import ChaosLab.CampaignProperties
import ChaosLab.RandomProperties
import ChaosLab.Scheduler

/-! What a planned injection takes from its fault and from the stream. -/

set_option autoImplicit false

namespace ChaosLab

theorem map_target_planFrom (rng : SplitMix64) (order : UInt64) (faults : List FaultSpec) :
    (planFrom rng order faults).map ScheduledInjection.target =
      faults.map FaultSpec.target := by
  induction faults generalizing rng order with
  | nil => rfl
  | cons fault faults ih =>
      rw [planFrom, List.map_cons, List.map_cons, ih]
      rfl

theorem map_id_planFrom (rng : SplitMix64) (order : UInt64) (faults : List FaultSpec) :
    (planFrom rng order faults).map ScheduledInjection.id =
      (List.range faults.length).map fun calls => ⟨rng.output calls⟩ := by
  induction faults generalizing rng order with
  | nil => rfl
  | cons fault faults ih =>
      rw [planFrom, List.map_cons, ih, List.length_cons, List.range_succ_eq_map, List.map_cons,
        List.map_map, SplitMix64.output, SplitMix64.advance]
      apply congrArg (List.cons _)
      apply List.map_congr_left
      intro calls _
      rw [Function.comp_apply, SplitMix64.output_next]

theorem nodup_id_plan (scheduler : FaultScheduler) {campaign : ChaosCampaign}
    (few : campaign.faultSchedule.length ≤ 2 ^ 64) :
    ((scheduler.plan campaign).schedule.map ScheduledInjection.id).Nodup := by
  rw [FaultScheduler.plan, map_id_planFrom]
  apply List.Nodup.map_on _ List.nodup_range
  intro first low second small same
  rw [List.mem_range] at low small
  apply SplitMix64.output_injective ⟨scheduler.seed⟩ (low.trans_le few) (small.trans_le few)
  exact congrArg Id.value same

/-- Different calls of the stream return different numbers until all of them have been
returned, so a plan names no two injections alike. -/
theorem injection_ids_distinct (seed : UInt64) :
    (∀ first < 2 ^ 64, ∀ second < 2 ^ 64, first ≠ second →
        (SplitMix64.mk seed).output first ≠ (SplitMix64.mk seed).output second) ∧
      ∀ scheduler : FaultScheduler, scheduler.seed = seed → ∀ campaign : ChaosCampaign,
        campaign.faultSchedule.length ≤ 2 ^ 64 →
          ((scheduler.plan campaign).schedule.map ScheduledInjection.id).Nodup := by
  constructor
  · intro first low second small different same
    exact different (SplitMix64.output_injective _ low small same)
  · intro scheduler _ campaign few
    exact nodup_id_plan scheduler few

/-- The check of a campaign looks at the targets a fault lists and the plan at its primary
target, so the plan stays inside the campaign exactly when each primary target is listed or
is a target of the campaign all the same. -/
theorem plan_owned_iff (scheduler : FaultScheduler) {campaign : ChaosCampaign}
    (accepted : campaign.validate = .ok ()) :
    (∀ injection ∈ (scheduler.plan campaign).schedule,
        Owned campaign.targets injection.target) ↔
      ∀ fault ∈ campaign.faultSchedule,
        fault.target ∈ fault.targets ∨ Owned campaign.targets fault.target := by
  obtain ⟨-, -, -, -, -, listed⟩ := ChaosCampaign.validate_eq_ok_iff.mp accepted
  have planned := map_target_planFrom ⟨scheduler.seed⟩ 0 campaign.faultSchedule
  constructor
  · intro owned fault member
    have known : fault.target ∈
        (scheduler.plan campaign).schedule.map ScheduledInjection.target := by
      rw [FaultScheduler.plan, planned]
      exact List.mem_map_of_mem member
    obtain ⟨injection, scheduled, same⟩ := List.mem_map.mp known
    rw [← same]
    exact .inr (owned injection scheduled)
  · intro covered injection scheduled
    have known : injection.target ∈ campaign.faultSchedule.map FaultSpec.target := by
      rw [← planned]
      exact List.mem_map_of_mem scheduled
    obtain ⟨fault, member, same⟩ := List.mem_map.mp known
    rw [← same]
    obtain own | owned := covered fault member
    · exact listed fault member fault.target own
    · exact owned

theorem plan_owned_iff_listed :
    (FaultScheduler.plan { seed := 7 }
        { seed := 1, targets := [{ id := ⟨1⟩, kind := .worker }]
          faultSchedule := [{ target := ⟨1⟩, targets := [⟨1⟩] }] }).schedule.all
      (fun injection => Owned [{ id := ⟨1⟩, kind := .worker }] injection.target) = true := by
  rw [List.all_eq_true]
  intro injection scheduled
  exact decide_eq_true
    ((plan_owned_iff { seed := 7 } (by decide)).mpr (by decide) injection scheduled)

/-- An accepted campaign without targets, with a fault that lists none. -/
theorem plan_outside_campaign :
    ∃ campaign : ChaosCampaign, campaign.validate = .ok () ∧
      ∃ injection ∈ (FaultScheduler.plan { seed := 7 } campaign).schedule,
        ¬ Owned campaign.targets injection.target :=
  ⟨{ seed := 1, faultSchedule := [{ target := ⟨5⟩ }] }, by decide, by decide +kernel⟩

end ChaosLab
