import ChaosLab.Identity
import ChaosLab.TextProperties

/-! The text of an identifier and its reading. -/

set_option autoImplicit false

namespace ChaosLab

open Foundation

theorem colon_notMem_idKindName (kind : IdKind) : Byte.colon ∉ idKindName kind := by
  cases kind <;> decide

def idKinds : List IdKind :=
  [.campaign, .scenario, .fault, .injection, .assertion, .evidence, .target, .process, .worker,
    .workerBoot, .node, .device, .request, .operation, .attempt, .dispatch, .recovery,
    .coordinatorEpoch, .attemptGeneration, .targetGeneration, .campaignGeneration, .last]

theorem mem_idKinds (kind : IdKind) : kind ∈ idKinds := by
  cases kind <;> decide

theorem idKindName_injective : Function.Injective idKindName := by
  have distinct : (idKinds.map idKindName).Nodup := by decide +kernel
  intro left right same
  exact List.inj_on_of_nodup_map distinct (mem_idKinds left) (mem_idKinds right) same

theorem Id.parse_toString {kind : IdKind} (id : Id kind) : Id.parse id.toString = some id := by
  have uncut : cutAt Byte.colon id.toString = none := by
    rw [cutAt_eq_none_iff]
    exact notMem_toHex (by decide) id.value
  rw [Id.parse, uncut]
  simp [Id.toString]

theorem Id.parse_named (kind : IdKind) {name : Bytes} (unmarked : Byte.colon ∉ name)
    (other : name ≠ idKindName kind) (rest : Bytes) :
    (Id.parse (name ++ Byte.colon :: rest) : Option (Id kind)) = none := by
  rw [Id.parse, cutAt_append unmarked]
  simp [other]

@[simp] theorem Id.parse_str {kind : IdKind} (id : Id kind) : Id.parse id.str = some id := by
  have cut : cutAt Byte.colon id.str = some (idKindName kind, toHex id.value) := by
    rw [Id.str, List.append_assoc, List.singleton_append]
    exact cutAt_append (colon_notMem_idKindName kind) _
  rw [Id.parse, cut]
  simp

/-- Both texts of an identifier are read back as it, and a text under the name of another kind
is not read at all. -/
theorem Id.parse_faithful (kind : IdKind) :
    (∀ id : Id kind, Id.parse id.toString = some id ∧ Id.parse id.str = some id) ∧
      ∀ other, other ≠ kind →
        (∀ rest, (Id.parse (idKindName other ++ Byte.colon :: rest) : Option (Id kind)) = none) ∧
        ∀ id : Id other, (Id.parse id.str : Option (Id kind)) = none := by
  refine ⟨fun id => ⟨id.parse_toString, id.parse_str⟩, ?_⟩
  intro other different
  have named (rest : Bytes) :
      (Id.parse (idKindName other ++ Byte.colon :: rest) : Option (Id kind)) = none := by
    apply Id.parse_named kind (colon_notMem_idKindName other)
    intro same
    exact different (idKindName_injective same)
  refine ⟨named, ?_⟩
  intro id
  rw [Id.str, List.append_assoc, List.singleton_append]
  exact named _

end ChaosLab
