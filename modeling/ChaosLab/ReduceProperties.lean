import ChaosLab.CampaignProperties
import ChaosLab.Fuzz

/-! What the reduction of a failing campaign keeps, and how far it goes. -/

set_option autoImplicit false

namespace ChaosLab

open Foundation

variable {stillFails : ChaosCampaign → Bool} {campaign : ChaosCampaign}

theorem stillFails_reduceFaults (fails : stillFails campaign = true) :
    stillFails (reduceFaults stillFails campaign) = true :=
  accepts_eraseGreedily (fun _ => true)
    (fun faults => stillFails { campaign with faultSchedule := faults }) 0 fails

theorem stillFails_reduceTargets (fails : stillFails campaign = true) :
    stillFails (reduceTargets stillFails campaign) = true :=
  accepts_eraseGreedily
    (fun target => !referenced campaign.faultSchedule target && target.kind ≠ .coordinator)
    (fun targets => stillFails { campaign with targets := targets }) 0 fails

/-- The targets that no reduction takes away while these faults remain. -/
def Protected (faults : List FaultSpec) (target : TargetSpec) : Prop :=
  target.kind = .coordinator ∨ ∃ fault ∈ faults, target.id ∈ fault.targets

instance (faults : List FaultSpec) (target : TargetSpec) : Decidable (Protected faults target) :=
  inferInstanceAs (Decidable (_ ∨ _))

theorem removable_eq_true_iff {faults : List FaultSpec} {target : TargetSpec} :
    (!referenced faults target && target.kind ≠ .coordinator) = true ↔
      ¬ Protected faults target := by
  have listed_iff : referenced faults target = true ↔ ∃ fault ∈ faults, target.id ∈ fault.targets := by
    simp [referenced]
  rw [Protected, ← listed_iff, not_or, Bool.and_eq_true, decide_eq_true_eq,
    Bool.not_eq_true_eq_eq_false, Bool.not_eq_true, and_comm]

theorem filter_reduceTargets (stillFails : ChaosCampaign → Bool) (campaign : ChaosCampaign) :
    (reduceTargets stillFails campaign).targets.filter (Protected campaign.faultSchedule) =
      campaign.targets.filter (Protected campaign.faultSchedule) := by
  apply filter_eraseGreedily
  intro target safe
  rw [decide_eq_true_eq] at safe
  apply Bool.eq_false_iff.mpr
  intro removes
  exact removable_eq_true_iff.mp removes safe

/-- A reduced campaign still fails. It is the original less some faults and some targets,
none of them protected by the faults that remain. -/
theorem reduceCampaign_sound (original : ChaosCampaign) (stillFails : ChaosCampaign → Bool)
    (fails : stillFails original = true) :
    stillFails (reduceCampaign original stillFails) = true ∧
      (reduceCampaign original stillFails).faultSchedule.Sublist original.faultSchedule ∧
      (reduceCampaign original stillFails).targets.Sublist original.targets ∧
      (reduceCampaign original stillFails).targets.filter
          (Protected (reduceCampaign original stillFails).faultSchedule) =
        original.targets.filter (Protected (reduceCampaign original stillFails).faultSchedule) ∧
      reduceCampaign original stillFails =
        { original with
          faultSchedule := (reduceCampaign original stillFails).faultSchedule
          targets := (reduceCampaign original stillFails).targets } := by
  refine ⟨?_, ?_, ?_, ?_, rfl⟩
  · exact stillFails_reduceTargets (stillFails_reduceFaults fails)
  · exact eraseGreedily_sublist 0 original.faultSchedule
  · exact eraseGreedily_sublist 0 original.targets
  · exact filter_reduceTargets stillFails (reduceFaults stillFails original)

theorem reduceCampaign_sound_last_fault :
    (reduceCampaign
        { targets := [{ id := ⟨1⟩ }, { id := ⟨2⟩ }, { id := ⟨3⟩, kind := .coordinator }]
          faultSchedule := [{ targets := [⟨1⟩] }, { targets := [⟨2⟩] }] }
        fun campaign => !campaign.faultSchedule.isEmpty).faultSchedule ≠ [] := by
  obtain ⟨fails, -⟩ := reduceCampaign_sound
    { targets := [{ id := ⟨1⟩ }, { id := ⟨2⟩ }, { id := ⟨3⟩, kind := .coordinator }]
      faultSchedule := [{ targets := [⟨1⟩] }, { targets := [⟨2⟩] }] }
    (fun campaign => !campaign.faultSchedule.isEmpty) rfl
  intro empty
  change (!List.isEmpty _) = true at fails
  rw [empty] at fails
  cases fails

/-- A campaign that fails goes on failing with more faults and more targets. -/
def FailsMonotonically (stillFails : ChaosCampaign → Bool) : Prop :=
  ∀ (campaign : ChaosCampaign) (faults more : List FaultSpec) (targets others : List TargetSpec),
    faults.Sublist more → targets.Sublist others →
      stillFails { campaign with faultSchedule := faults, targets := targets } = true →
        stillFails { campaign with faultSchedule := more, targets := others } = true

theorem FailsMonotonically.refused (monotone : FailsMonotonically stillFails)
    {faults more : List FaultSpec} {targets others : List TargetSpec}
    (fewerFaults : faults.Sublist more) (fewerTargets : targets.Sublist others)
    (passes : stillFails { campaign with faultSchedule := more, targets := others } = false) :
    stillFails { campaign with faultSchedule := faults, targets := targets } = false := by
  apply Bool.eq_false_iff.mpr
  intro fails
  rw [monotone campaign faults more targets others fewerFaults fewerTargets fails] at passes
  cases passes

theorem reduceFaults_minimal (monotone : FailsMonotonically stillFails)
    (campaign : ChaosCampaign) (index : Nat)
    (inside : index < (reduceFaults stillFails campaign).faultSchedule.length) :
    stillFails { campaign with
      faultSchedule := (reduceFaults stillFails campaign).faultSchedule.eraseIdx index } =
      false := by
  refine eraseGreedily_minimal (fun _ => true)
    (fun faults => stillFails { campaign with faultSchedule := faults }) ?_ ?_ index inside rfl
  · intro small large fewer fails
    exact monotone campaign small large campaign.targets campaign.targets fewer (.refl _) fails
  · intro earlier _ before
    omega

theorem reduceTargets_minimal (monotone : FailsMonotonically stillFails)
    (campaign : ChaosCampaign) (index : Nat)
    (inside : index < (reduceTargets stillFails campaign).targets.length)
    (free : ¬ Protected campaign.faultSchedule
      (reduceTargets stillFails campaign).targets[index]) :
    stillFails { campaign with
      targets := (reduceTargets stillFails campaign).targets.eraseIdx index } = false := by
  refine eraseGreedily_minimal
    (fun target => !referenced campaign.faultSchedule target && target.kind ≠ .coordinator)
    (fun targets => stillFails { campaign with targets := targets }) ?_ ?_ index inside
    (removable_eq_true_iff.mpr free)
  · intro small large fewer fails
    exact monotone campaign campaign.faultSchedule campaign.faultSchedule small large (.refl _)
      fewer fails
  · intro earlier _ before
    omega

/-- Each fault and each target was tried once, in a campaign that had more of both. When the
failure is monotone that is enough for all of them to be needed together. -/
theorem reduceCampaign_minimal (original : ChaosCampaign) (stillFails : ChaosCampaign → Bool)
    (monotone : FailsMonotonically stillFails) :
    let reduced := reduceCampaign original stillFails
    (∀ index < reduced.faultSchedule.length,
        stillFails { reduced with faultSchedule := reduced.faultSchedule.eraseIdx index } =
          false) ∧
      ∀ (index : Nat) (inside : index < reduced.targets.length),
        reduced.targets[index].kind ≠ .coordinator →
        (∀ fault ∈ reduced.faultSchedule, reduced.targets[index].id ∉ fault.targets) →
          stillFails { reduced with targets := reduced.targets.eraseIdx index } = false := by
  intro reduced
  constructor
  · intro index inside
    apply monotone.refused (.refl _) (eraseGreedily_sublist 0 original.targets)
    exact reduceFaults_minimal monotone original index inside
  · intro index inside worker unlisted
    apply reduceTargets_minimal monotone (reduceFaults stillFails original) index inside
    rintro (coordinator | ⟨fault, member, listed⟩)
    · exact worker coordinator
    · exact unlisted fault member listed

theorem reduceCampaign_minimal_one_fault :
    (reduceCampaign { faultSchedule := [{}, {}, {}] }
      fun campaign => !campaign.faultSchedule.isEmpty).faultSchedule.length ≤ 1 := by
  have monotone : FailsMonotonically fun campaign => !campaign.faultSchedule.isEmpty := by
    intro campaign faults more targets others fewerFaults fewerTargets fails
    cases fewerFaults with
    | slnil => exact fails
    | cons | cons_cons => rfl
  obtain ⟨faults, -⟩ := reduceCampaign_minimal { faultSchedule := [{}, {}, {}] } _ monotone
  by_contra several
  have emptied := faults 0 (by omega)
  rw [Bool.not_eq_false', List.isEmpty_iff] at emptied
  have short := congrArg List.length emptied
  rw [List.length_eraseIdx_of_lt (by omega), List.length_nil] at short
  omega

theorem mem_reduceTargets {target : TargetSpec} (member : target ∈ campaign.targets)
    (safe : Protected campaign.faultSchedule target) :
    target ∈ (reduceTargets stillFails campaign).targets := by
  have kept : target ∈ campaign.targets.filter (Protected campaign.faultSchedule) := by
    rw [List.mem_filter, decide_eq_true_eq]
    exact ⟨member, safe⟩
  rw [← filter_reduceTargets stillFails campaign] at kept
  exact List.mem_of_mem_filter kept

/-- A target that a remaining fault lists is never taken away, and nothing else that is
checked depends on what was. -/
theorem validate_reduceCampaign (original : ChaosCampaign) (stillFails : ChaosCampaign → Bool)
    (accepted : original.validate = .ok ()) :
    (reduceCampaign original stillFails).validate = .ok () := by
  obtain ⟨bounded, seeded, repeats, distinct, executable, owned⟩ :=
    ChaosCampaign.validate_eq_ok_iff.mp accepted
  have fewerFaults : (reduceFaults stillFails original).faultSchedule.Sublist
      original.faultSchedule := eraseGreedily_sublist 0 original.faultSchedule
  have fewerTargets : (reduceCampaign original stillFails).targets.Sublist original.targets :=
    eraseGreedily_sublist 0 original.targets
  refine ChaosCampaign.validate_eq_ok_iff.mpr ⟨bounded, seeded, repeats, ?_, ?_, ?_⟩
  · exact distinct.sublist (fewerTargets.map TargetSpec.id)
  · intro target member
    exact executable target (fewerTargets.subset member)
  · intro fault member id listed
    obtain ⟨target, known, rfl⟩ := owned fault (fewerFaults.subset member) id listed
    exact ⟨target, mem_reduceTargets known (.inr ⟨fault, member, listed⟩), rfl⟩

theorem validate_reduceCampaign_one_worker :
    (reduceCampaign
      { seed := 1, targets := [{ id := ⟨1⟩, kind := .worker }, { id := ⟨2⟩, kind := .worker }]
        faultSchedule := [{ targets := [⟨1⟩] }] }
      fun campaign => !campaign.faultSchedule.isEmpty).validate = .ok () :=
  validate_reduceCampaign _ _ (by decide)

/-- A cleanup action or a precondition has the id for its target. -/
def Named (campaign : ChaosCampaign) (id : TargetId) : Prop :=
  (∃ action ∈ campaign.cleanupActions, action.target = id) ∨
    ∃ precondition ∈ campaign.preconditions, precondition.target = id

def ReferencesClosed (campaign : ChaosCampaign) : Prop :=
  ∀ id, Named campaign id → Owned campaign.targets id

theorem failsMonotonically_always : FailsMonotonically fun _ => true := by
  intro campaign faults more targets others fewerFaults fewerTargets fails
  rfl

/-- When every trial is accepted nothing is left but the coordinators. -/
theorem kind_of_mem_reduceCampaign_always {target : TargetSpec}
    (member : target ∈ (reduceCampaign campaign fun _ => true).targets) :
    target.kind = .coordinator := by
  have noFaults : (reduceFaults (fun _ => true) campaign).faultSchedule = [] := by
    rw [← List.length_eq_zero_iff]
    by_contra positive
    cases reduceFaults_minimal failsMonotonically_always campaign 0 (by omega)
  obtain ⟨index, inside, rfl⟩ := List.getElem_of_mem member
  by_contra worker
  have free : ¬ Protected (reduceFaults (fun _ => true) campaign).faultSchedule
      (reduceCampaign campaign fun _ => true).targets[index] := by
    rw [noFaults]
    rintro (coordinator | ⟨fault, missing, -⟩)
    · exact worker coordinator
    · cases missing
  cases reduceTargets_minimal failsMonotonically_always _ index inside free

/-- The second loop asks the faults which targets they list, and nothing else. -/
theorem reduceCampaign_references (campaign : ChaosCampaign) :
    (∀ (stillFails : ChaosCampaign → Bool) (id : TargetId), Named campaign id →
        (∃ target ∈ campaign.targets, target.id = id ∧
          Protected (reduceCampaign campaign stillFails).faultSchedule target) →
        Owned (reduceCampaign campaign stillFails).targets id) ∧
      ((∀ stillFails, ReferencesClosed (reduceCampaign campaign stillFails)) ↔
        ∀ id, Named campaign id →
          ∃ target ∈ campaign.targets, target.id = id ∧ target.kind = .coordinator) := by
  refine ⟨?_, ?_, ?_⟩
  · intro stillFails id _ safe
    obtain ⟨target, member, same, kept⟩ := safe
    exact ⟨target, mem_reduceTargets member kept, same⟩
  · intro always id named
    obtain ⟨target, member, same⟩ := always (fun _ => true) id named
    have known : target ∈ campaign.targets :=
      (eraseGreedily_sublist 0 campaign.targets).subset member
    exact ⟨target, known, same, kind_of_mem_reduceCampaign_always member⟩
  · intro coordinators stillFails id named
    obtain ⟨target, member, same, kind⟩ := coordinators id named
    exact ⟨target, mem_reduceTargets member (.inl kind), same⟩

/-- A worker that its own cleanup action outlives. -/
theorem reduceCampaign_dangling :
    ∃ (campaign : ChaosCampaign) (stillFails : ChaosCampaign → Bool),
      ReferencesClosed campaign ∧ ¬ ReferencesClosed (reduceCampaign campaign stillFails) := by
  refine ⟨{ seed := 1, targets := [{ id := ⟨1⟩, kind := .worker, ownsProcess := true }]
            cleanupActions := [{ kind := .killProcess, target := ⟨1⟩ }] }, fun _ => true, ?_, ?_⟩
  · intro id named
    rcases named with ⟨action, member, rfl⟩ | ⟨precondition, member, -⟩
    · rw [List.mem_singleton.mp member]
      decide
    · cases member
  · intro closed
    obtain ⟨target, member, -⟩ := closed ⟨1⟩ (.inl ⟨_, List.mem_singleton_self _, rfl⟩)
    have kind := kind_of_mem_reduceCampaign_always member
    have known := (eraseGreedily_sublist 0 _).subset member
    rw [List.mem_singleton.mp known] at kind
    cases kind

end ChaosLab
