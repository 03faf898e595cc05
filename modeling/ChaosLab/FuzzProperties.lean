import ChaosLab.CampaignProperties
import ChaosLab.Fuzz
import ChaosLab.Foundation.Words

/-! What the generator makes of its random draws, when the campaign is valid, and when a
later call repeats the first one. -/

set_option autoImplicit false

namespace ChaosLab

section Numbers

theorem toUnsigned_ofNat {number : Nat} (small : number < 2 ^ 31) :
    toUnsigned (Int32.ofNat number) = UInt64.ofNat number := by
  have fits : (number : Int) ≤ Int32.maxValue.toInt := by
    rw [Int32.toInt_maxValue]
    omega
  rw [toUnsigned, Int32.toInt64_ofNat' fits, Int64.toUInt64_ofNat']

theorem toSigned_ofNat (number : Nat) : toSigned (UInt64.ofNat number) = Int32.ofNat number := by
  rw [toSigned, UInt64.toInt64_ofNat', Int64.toInt32_ofNat']

theorem ofNat_mod_three {number : Nat} (small : number < 2 ^ 31) :
    Int32.ofNat number % 3 = Int32.ofNat (number % 3) := by
  have rest : number % 3 < 2 ^ 31 := Nat.lt_of_le_of_lt (Nat.mod_le _ _) small
  rw [← Int32.toInt_inj, Int32.toInt_mod, Int32.toInt_ofNat_of_lt small,
    Int32.toInt_ofNat_of_lt rest]
  exact Int.tmod_eq_emod_of_nonneg (Int.natCast_nonneg number)

theorem eq_ofNat_of_nonneg {value : Int32} (nonneg : 0 ≤ value) :
    ∃ number < 2 ^ 31, value = Int32.ofNat number ∧ value.toInt.toNat = number := by
  have bound := value.toInt_lt
  have low : 0 ≤ value.toInt := Int32.le_iff_toInt_le.mp nonneg
  refine ⟨value.toInt.toNat, by omega, ?_, rfl⟩
  rw [← Int32.toInt_inj, Int32.toInt_ofNat_of_lt (by omega), Int.toNat_of_nonneg low]

theorem one_le_toInt {value : Int32} (positive : 1 ≤ value) : 1 ≤ value.toInt := by
  have one : (1 : Int32).toInt = 1 := by decide
  rw [← one]
  exact Int32.le_iff_toInt_le.mp positive

/-- A number drawn from an output stays within its bound. -/
theorem drawn_le {most : Int32} (positive : 1 ≤ most) (output : UInt64) :
    1 + output.toNat % most.toInt.toNat ≤ most.toInt.toNat := by
  have some := one_le_toInt positive
  have below := Nat.mod_lt output.toNat (by omega : 0 < most.toInt.toNat)
  omega

theorem drawn_le_limit {most : Int32} (positive : 1 ≤ most) (limited : most ≤ 32768)
    (output : UInt64) : 1 + output.toNat % most.toInt.toNat ≤ 32768 := by
  have limit : (32768 : Int32).toInt = 32768 := by decide
  have inside := drawn_le positive output
  rw [Int32.le_iff_toInt_le, limit] at limited
  omega

theorem toNat_toInt_lt (value : Int32) : value.toInt.toNat < 2 ^ 31 := by
  have bound := value.toInt_lt
  omega

theorem generatedTarget_ofNat_inj {first second : Nat} (small : first < 2 ^ 63)
    (low : second < 2 ^ 63) :
    generatedTarget (UInt64.ofNat first) = generatedTarget (UInt64.ofNat second) ↔
      first = second := by
  constructor
  · intro same
    exact Foundation.topBit_or_ofNat_inj small low (congrArg Id.value same)
  · rintro rfl
    rfl

theorem countTo_ofNat {count : Nat} (small : count < 2 ^ 31) :
    countTo (Int32.ofNat count) = (List.range count).map Int32.ofNat := by
  rw [countTo, Int32.toInt_ofNat_of_lt small, Int.toNat_natCast]

end Numbers

namespace CampaignFuzzer

section Draws

/-- The number of workers, or of faults, and the generator after it is drawn. -/
def drawCount (rng : SplitMix64) (most : Int32) : Int32 × SplitMix64 :=
  let drawn := rng.below (toUnsigned most)
  (toSigned (1 + drawn.1), drawn.2)

def drawCategories (rng : SplitMix64) : Nat → List FaultCategory × SplitMix64
  | 0 => ([], rng)
  | count + 1 =>
      let earlier := drawCategories rng count
      let last := pickCategory earlier.2
      (earlier.1 ++ [last.1], last.2)

/-- Everything a call of `generate` draws. -/
structure Draws where
  workers : Int32
  categories : List FaultCategory
deriving DecidableEq

def draws (rng : SplitMix64) (maxWorkers maxFaults : Int32) : Draws × SplitMix64 :=
  let workers := drawCount rng maxWorkers
  let faults := drawCount workers.2 maxFaults
  let categories := drawCategories faults.2 faults.1.toInt.toNat
  (⟨workers.1, categories.1⟩, categories.2)

theorem length_drawCategories (rng : SplitMix64) (count : Nat) :
    (drawCategories rng count).1.length = count := by
  induction count with
  | zero => rfl
  | succ count ih => simp [drawCategories, ih]

theorem drawCount_eq (rng : SplitMix64) {most : Int32} (positive : 1 ≤ most) :
    drawCount rng most =
      (Int32.ofNat (1 + rng.next.1.toNat % most.toInt.toNat), rng.next.2) := by
  obtain ⟨number, small, rfl, exact⟩ :=
    eq_ofNat_of_nonneg (Int32.le_trans (by decide) positive)
  have some := one_le_toInt positive
  rw [Int32.toInt_ofNat_of_lt small] at some
  have size : (UInt64.ofNat number).toNat = number :=
    UInt64.toNat_ofNat_of_lt' (Nat.lt_trans small (by decide))
  have nonzero : UInt64.ofNat number ≠ 0 := by
    intro zero
    rw [zero] at size
    have none : number = 0 := size.symm
    omega
  have drawn : 1 + rng.next.1 % UInt64.ofNat number =
      UInt64.ofNat (1 + rng.next.1.toNat % number) := by
    have same : rng.next.1.toNat % number = (rng.next.1 % UInt64.ofNat number).toNat := by
      rw [UInt64.toNat_mod, size]
    rw [same, UInt64.ofNat_add, UInt64.ofNat_toNat]
    rfl
  rw [exact, drawCount, toUnsigned_ofNat small]
  simp only [SplitMix64.below, if_neg nonzero, drawn, toSigned_ofNat]

end Draws

section Outcome

/-- The faults made of the categories drawn, in order. -/
def randomFaults (categories : List FaultCategory) : List FaultSpec :=
  categories.zipIdx.map fun item =>
    randomFault ⟨UInt64.ofNat (item.2 + 1)⟩ item.1 (Int32.ofNat item.2)

def fuzzedTargets (workers : Int32) : List TargetSpec :=
  (countTo workers).map randomWorker ++ [coordinator]

/-- The campaign `generate` builds from its draws. -/
def fuzzedCampaign (seed : UInt64) (drawn : Draws) : ChaosCampaign where
  id := ⟨seed ^^^ 0x5EED5EED5EED5EED⟩
  seed := seed
  generation := ⟨1⟩
  purpose := ascii "fuzzed campaign seed=" ++ toString seed
  targets := fuzzedTargets drawn.workers
  preconditions := [{
    name := ascii "registered"
    description := ascii "all targets registered"
    target := coordinator.id
    stateName := ascii "registered" }]
  faultSchedule := randomFaults drawn.categories
  assertions := [{ id := ⟨1⟩, kind := .assertExactlyOneAuthority }]
  cleanupActions := ((fuzzedTargets drawn.workers).filter TargetSpec.ownsProcess).map fun target =>
    { kind := .killProcess, target := target.id }
  envelope := {
    maxChildProcesses := drawn.workers + 2
    maxRestarts := 8
    allowedExecutables := [ascii "target_worker", ascii "target_coordinator"] }

theorem addWorkers_eq (campaign : ChaosCampaign) (workers : Int32) :
    addWorkers campaign workers =
      { campaign with targets := campaign.targets ++ (countTo workers).map randomWorker } := by
  unfold addWorkers
  induction countTo workers generalizing campaign with
  | nil => simp
  | cons idx indices ih => simp [addRandomWorker, ih]

theorem addFault_eq {campaign : ChaosCampaign} (populated : campaign.targets ≠ [])
    (rng : SplitMix64) (idx : Int32) :
    addFault campaign rng idx =
      ({ campaign with
          faultSchedule := campaign.faultSchedule ++ [randomFault
            ⟨UInt64.ofNat (campaign.faultSchedule.length + 1)⟩ (pickCategory rng).1 idx] },
        (pickCategory rng).2) := by
  simp only [addFault, if_neg populated]

theorem addFaults_eq {campaign : ChaosCampaign} (populated : campaign.targets ≠ [])
    (unfaulted : campaign.faultSchedule = []) (rng : SplitMix64) (faults : Int32) :
    addFaults campaign rng faults =
      ({ campaign with
          faultSchedule := randomFaults (drawCategories rng faults.toInt.toNat).1 },
        (drawCategories rng faults.toInt.toNat).2) := by
  rw [addFaults, countTo]
  induction faults.toInt.toNat with
  | zero =>
      cases campaign
      cases unfaulted
      rfl
  | succ count ih =>
      rw [List.range_succ, List.map_append, List.foldl_append, ih]
      simp only [List.map_cons, List.map_nil, List.foldl_cons, List.foldl_nil]
      rw [addFault_eq (by exact populated)]
      simp [drawCategories, randomFaults, List.zipIdx_append, length_drawCategories]

theorem generate_eq (fuzzer : CampaignFuzzer) (maxWorkers maxFaults : Int32) :
    fuzzer.generate maxWorkers maxFaults =
      (fuzzedCampaign fuzzer.seed (draws fuzzer.rng maxWorkers maxFaults).1,
        { fuzzer with rng := (draws fuzzer.rng maxWorkers maxFaults).2 }) := by
  simp only [generate, addWorkers_eq]
  rw [addFaults_eq (by simp) rfl]
  simp only [conclude, draws, drawCount, fuzzedCampaign, fuzzedTargets, List.nil_append]

end Outcome

section Validity

theorem randomWorker_id {idx : Nat} (few : idx < 32768) :
    (randomWorker (Int32.ofNat idx)).id = generatedTarget (UInt64.ofNat (idx + 1)) := by
  have next : Int32.ofNat idx + 1 = Int32.ofNat (idx + 1) := (Int32.ofNat_add idx 1).symm
  rw [randomWorker, next, toUnsigned_ofNat (by omega)]

/-- Only the parameters depend on the kind of fault in any other way. -/
theorem randomFault_eq (id : FaultId) (category : FaultCategory) (idx : Int32) :
    ∃ params, randomFault id category idx =
      { id := id
        category := category
        scope := scopeFor category
        target := generatedTarget (toUnsigned (idx % 3 + 1))
        targets := [generatedTarget (toUnsigned (idx % 3 + 1))]
        params := params } := by
  unfold randomFault
  split
  · split
    · exact ⟨_, rfl⟩
    · exact ⟨_, rfl⟩
  · split
    · exact ⟨_, rfl⟩
    · exact ⟨_, rfl⟩

theorem randomFault_targets (id : FaultId) (category : FaultCategory) {idx : Nat}
    (small : idx < 2 ^ 31) :
    (randomFault id category (Int32.ofNat idx)).targets =
      [generatedTarget (UInt64.ofNat (idx % 3 + 1))] := by
  have next : Int32.ofNat (idx % 3) + 1 = Int32.ofNat (idx % 3 + 1) :=
    (Int32.ofNat_add (idx % 3) 1).symm
  obtain ⟨params, shape⟩ := randomFault_eq id category (Int32.ofNat idx)
  rw [shape, ofNat_mod_three small, next, toUnsigned_ofNat (by omega)]

/-- The numbers of the workers' ids and of the coordinator's. -/
def targetNumbers (workers : Nat) : List Nat := List.range' 1 workers ++ [0x8001]

theorem mem_targetNumbers {workers number : Nat} :
    number ∈ targetNumbers workers ↔ 1 ≤ number ∧ number ≤ workers ∨ number = 0x8001 := by
  rw [targetNumbers, List.mem_append, List.mem_range'_1, List.mem_singleton]
  omega

theorem fuzzedTargets_ids {workers : Nat} (few : workers ≤ 32768) :
    (fuzzedTargets (Int32.ofNat workers)).map TargetSpec.id =
      (targetNumbers workers).map fun number => generatedTarget (UInt64.ofNat number) := by
  rw [fuzzedTargets, countTo_ofNat (by omega), targetNumbers, List.range'_eq_map_range]
  simp only [List.map_append, List.map_map, List.map_cons, List.map_nil]
  congr 1
  apply List.map_congr_left
  intro idx member
  rw [List.mem_range] at member
  simp only [Function.comp_apply]
  rw [randomWorker_id (by omega), Nat.add_comm]

theorem nodup_fuzzedTargets_ids {workers : Nat} (few : workers ≤ 32768) :
    ((fuzzedTargets (Int32.ofNat workers)).map TargetSpec.id).Nodup := by
  rw [fuzzedTargets_ids few]
  apply List.Nodup.map_on
  · intro first known second other same
    rw [mem_targetNumbers] at known other
    exact (generatedTarget_ofNat_inj (by omega) (by omega)).mp same
  · rw [targetNumbers, List.nodup_append]
    refine ⟨List.nodup_range', List.nodup_singleton _, ?_⟩
    intro first known second other
    rw [List.mem_range'_1] at known
    rw [List.mem_singleton] at other
    omega

theorem owned_fuzzedTargets_iff {workers number : Nat} (few : workers ≤ 32768)
    (low : number < 2 ^ 63) :
    Owned (fuzzedTargets (Int32.ofNat workers)) (generatedTarget (UInt64.ofNat number)) ↔
      number ∈ targetNumbers workers := by
  have listed : Owned (fuzzedTargets (Int32.ofNat workers))
      (generatedTarget (UInt64.ofNat number)) ↔ generatedTarget (UInt64.ofNat number) ∈
        (fuzzedTargets (Int32.ofNat workers)).map TargetSpec.id := List.mem_map.symm
  rw [listed, fuzzedTargets_ids few, List.mem_map]
  constructor
  · rintro ⟨other, known, same⟩
    have bound := mem_targetNumbers.mp known
    rwa [(generatedTarget_ofNat_inj (by omega) low).mp same] at known
  · intro known
    exact ⟨number, known, rfl⟩

/-- Fault number `i` names worker `i % 3`, whether it exists or not. -/
theorem owned_randomFaults_iff {workers : Nat} (few : workers ≤ 32768)
    {categories : List FaultCategory} (bounded : categories.length < 2 ^ 31) :
    (∀ fault ∈ randomFaults categories, ∀ id ∈ fault.targets,
        Owned (fuzzedTargets (Int32.ofNat workers)) id) ↔
      min 3 categories.length ≤ workers := by
  have each : (∀ fault ∈ randomFaults categories, ∀ id ∈ fault.targets,
        Owned (fuzzedTargets (Int32.ofNat workers)) id) ↔
      ∀ idx < categories.length, idx % 3 < workers := by
    have worker (idx : Nat) (inside : idx < categories.length) (category : FaultCategory) :
        (∀ id ∈ (randomFault ⟨UInt64.ofNat (idx + 1)⟩ category (Int32.ofNat idx)).targets,
          Owned (fuzzedTargets (Int32.ofNat workers)) id) ↔ idx % 3 < workers := by
      rw [randomFault_targets _ _ (by omega), List.forall_mem_singleton,
        owned_fuzzedTargets_iff few (by omega), mem_targetNumbers]
      omega
    simp only [randomFaults, List.forall_mem_map]
    constructor
    · intro all idx inside
      have member : (categories[idx], idx) ∈ categories.zipIdx :=
        List.mk_mem_zipIdx_iff_getElem?.mpr (List.getElem?_eq_getElem inside)
      exact (worker idx inside categories[idx]).mp (all _ member)
    · intro all item member
      have inside : item.2 < categories.length := by
        have bound := (List.mem_zipIdx member).2.1
        omega
      exact (worker item.2 inside item.1).mpr (all item.2 inside)
  rw [each]
  constructor
  · intro all
    by_cases empty : categories.length = 0
    · omega
    · have last := all (min 3 categories.length - 1) (by omega)
      omega
  · intro enough idx inside
    omega

/-- The draws of a call whose bounds are positive. -/
theorem draws_eq (rng : SplitMix64) {maxWorkers maxFaults : Int32} (someWorker : 1 ≤ maxWorkers)
    (someFault : 1 ≤ maxFaults) :
    (draws rng maxWorkers maxFaults).1.workers =
        Int32.ofNat (1 + rng.next.1.toNat % maxWorkers.toInt.toNat) ∧
      (draws rng maxWorkers maxFaults).1.categories.length =
        1 + rng.next.2.next.1.toNat % maxFaults.toInt.toNat := by
  have small : 1 + rng.next.2.next.1.toNat % maxFaults.toInt.toNat < 2 ^ 31 :=
    Nat.lt_of_le_of_lt (drawn_le someFault rng.next.2.next.1) (toNat_toInt_lt maxFaults)
  have count : (draws rng maxWorkers maxFaults).1.categories.length =
      (drawCount (drawCount rng maxWorkers).2 maxFaults).1.toInt.toNat := by
    simp only [draws, length_drawCategories]
  constructor
  · simp only [draws, drawCount_eq rng someWorker]
  · rw [count, drawCount_eq rng someWorker, drawCount_eq _ someFault,
      Int32.toInt_ofNat_of_lt small, Int.toNat_natCast]

theorem toInt_maxChildProcesses {workers : Nat} (few : workers ≤ 32768) (seed : UInt64)
    (categories : List FaultCategory) :
    (fuzzedCampaign seed ⟨Int32.ofNat workers, categories⟩).envelope.maxChildProcesses.toInt =
      workers + 2 := by
  have sum : Int32.ofNat workers + 2 = Int32.ofNat (workers + 2) :=
    (Int32.ofNat_add workers 2).symm
  change (Int32.ofNat workers + 2).toInt = _
  rw [sum, Int32.toInt_ofNat_of_lt (by omega), Nat.cast_add]
  rfl

theorem validate_fuzzedEnvelope {workers : Nat} (few : workers ≤ 32768) (seed : UInt64)
    (categories : List FaultCategory) :
    (fuzzedCampaign seed ⟨Int32.ofNat workers, categories⟩).envelope.validate = true := by
  have one : (1 : Int32).toInt = 1 := by decide
  refine ResourceEnvelope.validate_eq_true_iff.mpr ⟨?_, (by decide : (1 : Int32) ≤ 8),
    (by decide : (1 : Int32) ≤ 64), Nat.zero_le 512⟩
  rw [Int32.le_iff_toInt_le, toInt_maxChildProcesses few, one]
  omega

/-- Everything but the ownership of the faults' targets holds of every such campaign. -/
theorem fuzzedCampaign_validate_iff {seed : UInt64} (seeded : seed ≠ 0) {workers : Nat}
    (few : workers ≤ 32768) {categories : List FaultCategory}
    (bounded : categories.length < 2 ^ 31) :
    (fuzzedCampaign seed ⟨Int32.ofNat workers, categories⟩).validate = .ok () ↔
      min 3 categories.length ≤ workers := by
  have executables : ∀ target ∈ fuzzedTargets (Int32.ofNat workers),
      target.kind = .process → target.executable ≠ [] := by
    intro target member process
    rw [fuzzedTargets, List.mem_append, List.mem_map, List.mem_singleton] at member
    obtain ⟨idx, -, rfl⟩ | rfl := member
    · cases process
    · cases process
  rw [ChaosCampaign.validate_eq_ok_iff, ← owned_randomFaults_iff few bounded]
  constructor
  · rintro ⟨-, -, -, -, -, owned⟩
    exact owned
  · intro owned
    exact ⟨validate_fuzzedEnvelope few seed categories, seeded, Int32.le_refl 1,
      nodup_fuzzedTargets_ids few, executables, owned⟩

/-- The first campaign of a generator is valid exactly when it has as many workers as its
faults name, which is at most three. -/
theorem generate_validate_iff {seed : UInt64} (seeded : seed ≠ 0) {maxWorkers maxFaults : Int32}
    (someWorker : 1 ≤ maxWorkers) (fewWorkers : maxWorkers ≤ 32768) (someFault : 1 ≤ maxFaults) :
    ((new seed).generate maxWorkers maxFaults).1.validate = .ok () ↔
      min 3 (1 + (SplitMix64.mk seed).next.2.next.1.toNat % maxFaults.toInt.toNat) ≤
        1 + (SplitMix64.mk seed).next.1.toNat % maxWorkers.toInt.toNat := by
  have few := drawn_le_limit someWorker fewWorkers (SplitMix64.mk seed).next.1
  obtain ⟨workers, faults⟩ := draws_eq ⟨seed⟩ someWorker someFault
  have bounded : (draws ⟨seed⟩ maxWorkers maxFaults).1.categories.length < 2 ^ 31 := by
    rw [faults]
    exact Nat.lt_of_le_of_lt (drawn_le someFault _) (toNat_toInt_lt maxFaults)
  rw [generate_eq, ← faults, ← fuzzedCampaign_validate_iff seeded few bounded, ← workers]
  rfl

theorem generate_validate_iff_three_workers :
    ((new 1).generate 3 8).1.validate = .ok () :=
  (generate_validate_iff (by decide) (by decide) (by decide) (by decide)).mpr (by decide)

/-- Two workers, and a third fault that names worker number three. -/
theorem generate_names_missing_worker :
    ((new 2).generate 3 8).1.validate =
      .error (ascii "fault targets non-owned target: target:8000000000000003") := by
  decide +kernel

end Validity

section Repetition

theorem randomFault_category (id : FaultId) (category : FaultCategory) (idx : Int32) :
    (randomFault id category idx).category = category := by
  obtain ⟨params, shape⟩ := randomFault_eq id category idx
  rw [shape]

theorem map_category_randomFaults (categories : List FaultCategory) :
    (randomFaults categories).map FaultSpec.category = categories := by
  simp only [randomFaults, List.map_map, Function.comp_def, randomFault_category]
  exact List.zipIdx_map_fst 0 categories

/-- A campaign shows everything that was drawn for it. -/
theorem fuzzedCampaign_inj {seed : UInt64} {first second : Draws} :
    fuzzedCampaign seed first = fuzzedCampaign seed second ↔ first = second := by
  constructor
  · intro same
    have workers : first.workers + 2 = second.workers + 2 :=
      congrArg (fun campaign => campaign.envelope.maxChildProcesses) same
    have faults : randomFaults first.categories = randomFaults second.categories :=
      congrArg ChaosCampaign.faultSchedule same
    have categories := congrArg (List.map FaultSpec.category) faults
    rw [map_category_randomFaults, map_category_randomFaults] at categories
    cases first
    cases second
    simp_all
  · rintro rfl
    rfl

/-- The generator after a number of calls with the same arguments. -/
def afterCalls (fuzzer : CampaignFuzzer) (maxWorkers maxFaults : Int32) : Nat → CampaignFuzzer
  | 0 => fuzzer
  | calls + 1 => ((afterCalls fuzzer maxWorkers maxFaults calls).generate maxWorkers maxFaults).2

/-- The campaign the next call returns then. -/
def laterCampaign (seed : UInt64) (maxWorkers maxFaults : Int32) (calls : Nat) : ChaosCampaign :=
  ((afterCalls (new seed) maxWorkers maxFaults calls).generate maxWorkers maxFaults).1

theorem afterCalls_seed (fuzzer : CampaignFuzzer) (maxWorkers maxFaults : Int32) (calls : Nat) :
    (afterCalls fuzzer maxWorkers maxFaults calls).seed = fuzzer.seed := by
  induction calls with
  | zero => rfl
  | succ calls ih => rw [afterCalls, generate_eq, ih]

theorem laterCampaign_eq (seed : UInt64) (maxWorkers maxFaults : Int32) (calls : Nat) :
    laterCampaign seed maxWorkers maxFaults calls = fuzzedCampaign seed
      (draws (afterCalls (new seed) maxWorkers maxFaults calls).rng maxWorkers maxFaults).1 := by
  rw [laterCampaign, generate_eq, afterCalls_seed]
  rfl

/-- A campaign comes back from the seed it records exactly when the generator, as the
earlier calls left it, draws again what it drew first. -/
theorem generate_from_seed_iff (seed : UInt64) (maxWorkers maxFaults : Int32) (calls : Nat) :
    laterCampaign seed maxWorkers maxFaults calls =
        ((new (laterCampaign seed maxWorkers maxFaults calls).seed).generate maxWorkers
          maxFaults).1 ↔
      (draws (afterCalls (new seed) maxWorkers maxFaults calls).rng maxWorkers maxFaults).1 =
        (draws ⟨seed⟩ maxWorkers maxFaults).1 := by
  rw [laterCampaign_eq, generate_eq]
  exact fuzzedCampaign_inj

/-- The second campaign of seed one has seven faults, the first one eight. -/
theorem second_campaign_not_from_seed :
    laterCampaign 1 3 8 1 ≠ ((new (laterCampaign 1 3 8 1).seed).generate 3 8).1 := by
  intro same
  have sizes := congrArg (fun campaign => campaign.faultSchedule.length) same
  revert sizes
  decide +kernel

end Repetition

end CampaignFuzzer

end ChaosLab
