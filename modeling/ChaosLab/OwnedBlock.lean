import ChaosLab.Foundation.Ownership
import ChaosLab.Foundation.Transition
import ChaosLab.Resource

/-! `HostAllocation` and `DeviceBuffer` with the memory they own: the two classes are the
same but for the texts of their errors. The objects of a program are constructed, moved
and destroyed in any order. -/

set_option autoImplicit false

namespace ChaosLab

open Foundation

/-- A pointer that is not null. -/
abbrev Address := UInt64

/-- The live blocks, with their sizes. -/
abbrev Memory := Heap Address UInt64

/-- `ptr_` and `bytes_`. -/
structure OwnedBlock where
  ptr : Option Address := none
  bytes : UInt64 := 0
deriving DecidableEq

/-- The errors of `allocate`, in which the two classes differ: a size beyond the cap, and
a block that could not be had, with what the driver says about it. -/
structure Allocator where
  exceeds : UInt64 → UInt64 → Status
  refused : UInt64 → Bytes → Status

def hostAllocator : Allocator where
  exceeds := fun bytes maxBytes =>
    resourceLimit (ascii "allocation exceeds host cap: " ++ toString bytes ++ ascii " > " ++
      toString maxBytes)
  refused := fun bytes _ =>
    resourceLimit (ascii "host allocation failed: " ++ toString bytes ++ ascii " bytes")

def deviceAllocator : Allocator where
  exceeds := fun _ _ => resourceLimit (ascii "allocate exceeds device cap")
  refused := fun _ reason => resourceLimit (ascii "cudaMalloc failed: " ++ reason)

namespace OwnedBlock

def release (block : OwnedBlock) (memory : Memory) : OwnedBlock × Memory :=
  match block.ptr with
  | some ptr => ({}, memory.close ptr)
  | none => (block, memory)

/-- `allocate`; `malloc` is what the call for memory returns, if it is made. -/
def allocate (allocator : Allocator) (block : OwnedBlock) (memory : Memory)
    (malloc : Except Bytes Address) (bytes maxBytes : UInt64) : Status × OwnedBlock × Memory :=
  if maxBytes ≠ 0 ∧ bytes > maxBytes then (allocator.exceeds bytes maxBytes, block, memory)
  else
    let (block, memory) := if block.ptr.isSome then block.release memory else (block, memory)
    if bytes = 0 then ({}, block, memory)
    else
      match malloc with
      | .error reason => (allocator.refused bytes reason, block, memory)
      | .ok ptr => ({}, { ptr := some ptr, bytes := bytes }, memory.allot ptr bytes)

inductive Action where
  | construct (slot : Nat)
  | moveConstruct (into source : Nat)
  | moveAssign (into source : Nat)
  | allocate (slot : Nat) (malloc : Except Bytes Address) (bytes maxBytes : UInt64)
  | release (slot : Nat)
  | destroy (slot : Nat)

/-- The objects there are, and the memory. -/
structure Store where
  blocks : Nat → Option OwnedBlock := fun _ => none
  memory : Memory := {}

/-- An object is constructed where there is none, and used, moved from and destroyed where
there is one. A block that is handed out is not one that is live when the call for memory
is made; the block that the object has just given back may be handed out again. -/
def step (allocator : Allocator) (store : Store) : Action → Option (Store × List Status)
  | .construct slot =>
      match store.blocks slot with
      | none => some ({ store with blocks := Function.update store.blocks slot (some {}) }, [])
      | some _ => none
  | .moveConstruct into source =>
      match store.blocks into, store.blocks source with
      | none, some block =>
          some ({ store with
            blocks := Function.update (Function.update store.blocks source (some {})) into
              (some block) }, [])
      | _, _ => none
  | .moveAssign into source =>
      match store.blocks into, store.blocks source with
      | some target, some block =>
          if into = source then some (store, [])
          else
            some ({
              blocks := Function.update (Function.update store.blocks source (some {})) into
                (some block)
              memory := (target.release store.memory).2 }, [])
      | _, _ => none
  | .allocate slot malloc bytes maxBytes =>
      match store.blocks slot with
      | none => none
      | some block =>
          if malloc.toOption.all fun ptr => ((block.release store.memory).2.live ptr).isNone then
            let (status, block, memory) :=
              block.allocate allocator store.memory malloc bytes maxBytes
            some ({ blocks := Function.update store.blocks slot (some block), memory := memory },
              [status])
          else none
  | .release slot =>
      match store.blocks slot with
      | none => none
      | some block =>
          some ({
            blocks := Function.update store.blocks slot (some (block.release store.memory).1)
            memory := (block.release store.memory).2 }, [])
  | .destroy slot =>
      match store.blocks slot with
      | none => none
      | some block =>
          some ({
            blocks := Function.update store.blocks slot none
            memory := (block.release store.memory).2 }, [])

def machine (allocator : Allocator) : Machine Store Action Status := ⟨step allocator⟩

def held (blocks : Nat → Option OwnedBlock) (slot : Nat) : Option (Address × UInt64) :=
  (blocks slot).bind fun block => block.ptr.map fun ptr => (ptr, block.bytes)

/-- An object without a block says so: its size is zero. -/
structure Sound (store : Store) : Prop where
  owned : Custody (held store.blocks) store.memory
  sized : ∀ slot block, store.blocks slot = some block → block.ptr = none → block.bytes = 0

section Held

variable {blocks : Nat → Option OwnedBlock} {slot : Nat} {block : OwnedBlock}

theorem held_update (blocks : Nat → Option OwnedBlock) (slot : Nat) (block : Option OwnedBlock) :
    held (Function.update blocks slot block) =
      Function.update (held blocks) slot
        (block.bind fun block => block.ptr.map fun ptr => (ptr, block.bytes)) := by
  funext other
  by_cases same : other = slot
  · subst same
    simp [held]
  · simp [held, same]

theorem held_eq (found : blocks slot = some block) :
    held blocks slot = block.ptr.map fun ptr => (ptr, block.bytes) := by
  simp [held, found]

theorem held_eq_none (absent : blocks slot = none) : held blocks slot = none := by
  simp [held, absent]

end Held

section Step

variable {store : Store} {slot : Nat} {block : OwnedBlock}

/-- `release` gives the block back, if the object has one. -/
theorem Sound.release (sound : Sound store) (found : store.blocks slot = some block) :
    Custody (Function.update (held store.blocks) slot none) (block.release store.memory).2 := by
  have holds := held_eq found
  unfold OwnedBlock.release
  cases here : block.ptr with
  | none =>
      rw [here, Option.map_none] at holds
      rw [← holds, Function.update_eq_self]
      exact sound.owned
  | some ptr =>
      rw [here, Option.map_some] at holds
      exact sound.owned.close holds

theorem release_fst (block : OwnedBlock) (memory : Memory)
    (sized : block.ptr = none → block.bytes = 0) : (block.release memory).1 = {} := by
  unfold OwnedBlock.release
  cases here : block.ptr with
  | none =>
      obtain ⟨ptr, bytes⟩ := block
      simp only at here sized
      rw [here, sized here]
  | some ptr => rfl

/-- Another object in a slot, after it owns what its pointer says. -/
theorem Sound.put (sound : Sound store) {memory : Memory} (block : Option OwnedBlock)
    (owned : Custody (Function.update (held store.blocks) slot
      (block.bind fun block => block.ptr.map fun ptr => (ptr, block.bytes))) memory)
    (sized : ∀ there, block = some there → there.ptr = none → there.bytes = 0) :
    Sound { blocks := Function.update store.blocks slot block, memory := memory } := by
  refine ⟨by rwa [held_update], fun other there found => ?_⟩
  by_cases same : other = slot
  · subst same
    simp only [Function.update_self] at found
    exact sized there found
  · simp only [Function.update_of_ne same] at found
    exact sound.sized other there found

theorem Sound.allocate (sound : Sound store) (found : store.blocks slot = some block)
    (allocator : Allocator) {malloc : Except Bytes Address} (bytes maxBytes : UInt64)
    (fresh : ∀ ptr ∈ malloc.toOption, (block.release store.memory).2.live ptr = none) :
    Sound {
      blocks := Function.update store.blocks slot
        (some (block.allocate allocator store.memory malloc bytes maxBytes).2.1)
      memory := (block.allocate allocator store.memory malloc bytes maxBytes).2.2 } := by
  have sized := sound.sized slot block found
  -- The old block, if there is one, is given back before the new one is asked for.
  have released : (if block.ptr.isSome then block.release store.memory else (block, store.memory)) =
      ({}, (block.release store.memory).2) := by
    split
    · rw [← release_fst block store.memory sized]
    · rename_i absent
      rw [Bool.not_eq_true, Option.isSome_eq_false_iff, Option.isNone_iff_eq_none] at absent
      have empty := release_fst block store.memory sized
      simp only [OwnedBlock.release, absent] at empty ⊢
      rw [empty]
  have given := sound.release found
  have kept : Sound {
      blocks := Function.update store.blocks slot (some {})
      memory := (block.release store.memory).2 } :=
    sound.put (some {}) (by simpa using given) (by simp)
  unfold OwnedBlock.allocate
  rw [released]
  split
  · have same : Function.update store.blocks slot (some block) = store.blocks := by
      rw [← found, Function.update_eq_self]
    dsimp only
    rw [same]
    exact sound
  · dsimp only
    split
    · exact kept
    · cases malloc with
      | error reason => exact kept
      | ok ptr =>
          have placed := @Custody.allot _ _ _ _ _ _ _ slot ptr bytes given (by simp)
            (fresh ptr rfl)
          rw [Function.update_idem] at placed
          exact sound.put _ placed (by simp)

/-- An object takes over what another one has; what it had itself is gone by then. -/
theorem Sound.take {memory : Memory} {into source : Nat} (different : into ≠ source)
    (sound : Sound store) (found : store.blocks source = some block)
    (owned : Custody (Function.update (held store.blocks) into none) memory) :
    Sound {
      blocks := Function.update (Function.update store.blocks source (some {})) into (some block)
      memory := memory } := by
  have moved := @Custody.move _ _ _ _ _ _ owned into source (by simp)
  have same : held (Function.update (Function.update store.blocks source (some {})) into
      (some block)) =
      Function.update (Function.update (Function.update (held store.blocks) into none) source none)
        into (Function.update (held store.blocks) into none source) := by
    rw [held_update, held_update, Function.update_of_ne different.symm, held_eq found]
    funext slot
    by_cases here : slot = into <;> by_cases there : slot = source <;>
      simp [here, there, different.symm]
  refine ⟨same ▸ moved, fun slot there at_slot => ?_⟩
  by_cases here : slot = into
  · simp only [here, Function.update_self, Option.some.injEq] at at_slot
    exact at_slot ▸ sound.sized source block found
  · simp only [Function.update_of_ne here] at at_slot
    by_cases emptied : slot = source
    · simp only [emptied, Function.update_self, Option.some.injEq] at at_slot
      simp [← at_slot]
    · simp only [Function.update_of_ne emptied] at at_slot
      exact sound.sized slot there at_slot

theorem Sound.step {allocator : Allocator} {next : Store} {action : Action}
    {outputs : List Status} (sound : Sound store)
    (stepped : (machine allocator).step store action = some (next, outputs)) : Sound next := by
  change OwnedBlock.step allocator store action = some (next, outputs) at stepped
  cases action with
  | construct slot =>
      simp only [OwnedBlock.step] at stepped
      split at stepped
      · rename_i absent
        cases stepped
        refine sound.put (some {}) ?_ (by simp)
        have empty := held_eq_none absent
        simpa [← empty] using sound.owned
      · cases stepped
  | moveConstruct into source =>
      simp only [OwnedBlock.step] at stepped
      split at stepped
      · rename_i block absent found
        cases stepped
        have different : into ≠ source := by
          rintro rfl
          rw [absent] at found
          cases found
        refine sound.take different found ?_
        have empty := held_eq_none absent
        simpa [← empty] using sound.owned
      · cases stepped
  | moveAssign into source =>
      simp only [OwnedBlock.step] at stepped
      split at stepped
      · rename_i target block target_found found
        split at stepped
        · cases stepped
          exact sound
        · rename_i different
          cases stepped
          exact sound.take different found (sound.release target_found)
      · cases stepped
  | allocate slot malloc bytes maxBytes =>
      simp only [OwnedBlock.step] at stepped
      split at stepped
      · cases stepped
      · rename_i block found
        split at stepped
        · rename_i fresh
          cases stepped
          refine sound.allocate found allocator bytes maxBytes fun ptr handed => ?_
          rw [Option.mem_def.mp handed] at fresh
          simpa using fresh
        · cases stepped
  | release slot =>
      simp only [OwnedBlock.step] at stepped
      split at stepped
      · cases stepped
      · rename_i block found
        cases stepped
        have empty := release_fst block store.memory (sound.sized slot block found)
        rw [empty]
        exact sound.put (some {}) (by simpa using sound.release found) (by simp)
  | destroy slot =>
      simp only [OwnedBlock.step] at stepped
      split at stepped
      · cases stepped
      · rename_i block found
        cases stepped
        exact sound.put none (sound.release found) (by simp)

end Step

theorem sound_of_run {allocator : Allocator}
    {history : List (Transition Store Action Status)} {final : Store}
    (run : Run (machine allocator) {} history final) : Sound final :=
  run.invariant Sound Sound.step ⟨custody_empty, by simp⟩

/-- However the objects are constructed, filled, moved, emptied and destroyed: no block is
given back twice, each object's block is live and has the size it says, no two objects
have the same, and every block is some object's, so without objects there is none. -/
theorem blocks_owned {allocator : Allocator}
    {history : List (Transition Store Action Status)} {final : Store}
    (run : Run (machine allocator) {} history final) :
    final.memory.broken = false ∧
    (∀ slot block ptr, final.blocks slot = some block → block.ptr = some ptr →
      final.memory.live ptr = some block.bytes) ∧
    (∀ slot other block also ptr, final.blocks slot = some block →
      final.blocks other = some also → block.ptr = some ptr → also.ptr = some ptr →
      slot = other) ∧
    (∀ ptr bytes, final.memory.live ptr = some bytes → ∃ slot, final.blocks slot =
      some { ptr := some ptr, bytes := bytes }) ∧
    (∀ slot block, final.blocks slot = some block → block.ptr = none → block.bytes = 0) := by
  have sound := sound_of_run run
  have holds {slot : Nat} {block : OwnedBlock} {ptr : Address}
      (found : final.blocks slot = some block) (here : block.ptr = some ptr) :
      held final.blocks slot = some (ptr, block.bytes) := by
    rw [held_eq found, here, Option.map_some]
  refine ⟨sound.owned.intact, fun slot block ptr found here => sound.owned.live (holds found here),
    fun slot other block also ptr found foundAlso here hereAlso =>
      sound.owned.unique (holds found here) (holds foundAlso hereAlso), ?_, sound.sized⟩
  intro ptr bytes found
  obtain ⟨slot, kept⟩ := sound.owned.covered found
  simp only [held, Option.bind_eq_some_iff, Option.map_eq_some_iff, Prod.mk.injEq] at kept
  obtain ⟨⟨there, size⟩, inside, ptr, rfl, rfl, rfl⟩ := kept
  exact ⟨slot, inside⟩

/-- The third allocation gets the block that its object has given back for it. -/
theorem blocks_owned_after_move : ∃ history final,
    Run (machine deviceAllocator) {} history final ∧ final.blocks 0 = some {} ∧
      final.memory.live 7 = some 32 ∧ final.memory.live 8 = none ∧ final.memory.broken = false := by
  obtain ⟨history, final, run, emptied, filled, freed⟩ := (machine deviceAllocator).exists_run {}
    [.construct 0, .construct 1, .allocate 0 (.ok 7) 16 0, .allocate 1 (.ok 8) 16 0,
      .allocate 0 (.ok 7) 32 64, .moveAssign 1 0, .allocate 0 (.error []) 16 0]
    (fun _ final => final.blocks 0 = some {} ∧
      final.blocks 1 = some { ptr := some 7, bytes := 32 } ∧ final.memory.live 8 = none)
    (by decide +kernel)
  obtain ⟨intact, live, -⟩ := blocks_owned run
  exact ⟨history, final, run, emptied, live 1 _ 7 filled rfl, freed, intact⟩

/-- The object as its size and whether it holds memory. -/
def view (block : OwnedBlock) : HostAllocation where
  held := block.ptr.isSome
  bytes := block.bytes

/-- With the texts of the host class, `allocate` and `release` are those of `HostAllocation`. -/
theorem allocate_view (block : OwnedBlock) (memory : Memory) (malloc : Except Bytes Address)
    (bytes maxBytes : UInt64) :
    (block.release memory).1.view = block.view.release ∧
    ((block.allocate hostAllocator memory malloc bytes maxBytes).1,
        (block.allocate hostAllocator memory malloc bytes maxBytes).2.1.view) =
      block.view.allocate malloc.toBool bytes maxBytes := by
  obtain ⟨held, size⟩ := block
  constructor
  · cases held <;> rfl
  · unfold OwnedBlock.allocate HostAllocation.allocate
    split
    · rfl
    · cases held with
      | none =>
          by_cases empty : bytes = 0
          · simp [empty, view]
          · cases malloc <;> simp [empty, view, hostAllocator, Except.toBool]
      | some ptr =>
          by_cases empty : bytes = 0
          · simp [empty, view, OwnedBlock.release, HostAllocation.release]
          · cases malloc <;>
              simp [empty, view, hostAllocator, Except.toBool, OwnedBlock.release,
                HostAllocation.release]

end OwnedBlock

end ChaosLab
