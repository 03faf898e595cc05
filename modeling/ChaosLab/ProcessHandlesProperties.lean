import ChaosLab.ProcessHandles

/-! No handle is closed twice or left open: the open handles are those that the objects
hold, each held once. -/

set_option autoImplicit false

namespace ChaosLab

open Foundation

namespace Process

section Held

variable {objects : Nat → Option Process} {slot : Nat} {process : Process}

theorem held_eq (found : objects slot = some process) (which : Field) :
    held objects (slot, which) = (process.field which).map fun handle => (handle, ()) := by
  simp [held, found]

theorem held_eq_none (absent : objects slot = none) (which : Field) :
    held objects (slot, which) = none := by
  simp [held, absent]

/-- A slot without any handle. -/
def Bare (process : Option Process) : Prop :=
  ∀ there, process = some there → ∀ which, there.field which = none

theorem held_of_bare {put : Option Process} (bare : Bare put) :
    held (Function.update objects slot put) = fun holder =>
      if holder.1 = slot then none else held objects holder := by
  funext holder
  by_cases here : holder.1 = slot
  · cases put with
    | none => simp [held, here]
    | some there => simp [held, here, bare there rfl]
  · simp [held, here]

end Held

section Close

variable {held' : Nat × Field → Option (Handle × Unit)} {handles : Handles}

theorem custody_closeField (owned : Custody held' handles) {holder : Nat × Field}
    {value : Option Handle} (holds : held' holder = value.map fun handle => (handle, ())) :
    Custody (Function.update held' holder none) (closeField value handles) := by
  cases value with
  | none =>
      rw [Option.map_none] at holds
      rw [← holds, Function.update_eq_self]
      exact owned
  | some handle => exact owned.close holds

theorem custody_close {objects : Nat → Option Process} (owned : Custody (held objects) handles)
    {slot : Nat} {process : Process} (found : objects slot = some process) {put : Option Process}
    (bare : Bare put) :
    Custody (held (Function.update objects slot put)) (process.close handles).2 := by
  have first := custody_closeField owned (held_eq found .pipeOut)
  have second := @custody_closeField _ _ first (slot, .pipeErr) process.pipeErr
    (by simp [held_eq found, field])
  have third := @custody_closeField _ _ second (slot, .process) process.process
    (by simp [held_eq found, field])
  have same : held (Function.update objects slot put) =
      Function.update (Function.update (Function.update (held objects) (slot, .pipeOut) none)
        (slot, .pipeErr) none) (slot, .process) none := by
    rw [held_of_bare bare]
    funext holder
    obtain ⟨other, which⟩ := holder
    by_cases here : other = slot
    · cases which <;> simp [here]
    · simp [here]
  rw [same]
  exact third

end Close

section Launch

variable {calls : Calls} {handles : Handles}

/-- A call that fails leaves the handles as they were after the object was closed; with
none failing, three more are open, and the object has them. -/
theorem launch_spec (executable : Bytes) (process : Process) (handles : Handles)
    (fresh : calls.fresh (process.close handles).2 = true) :
    (∃ status, status.code = .processError ∧
      launch executable calls process handles = (status, {}, (process.close handles).2)) ∨
    ∃ outRead errRead created pid,
      [outRead, errRead, created].Nodup ∧
      (∀ handle ∈ [outRead, errRead, created], (process.close handles).2.live handle = none) ∧
      launch executable calls process handles = ({},
        { process := some created, pid := pid, pipeOut := some outRead, pipeErr := some errRead },
        (((process.close handles).2.allot outRead ()).allot errRead ()).allot created ()) := by
  simp only [Calls.fresh, Bool.and_eq_true, decide_eq_true_eq, List.all_eq_true,
    Option.isNone_iff_eq_none] at fresh
  obtain ⟨distinct, free⟩ := fresh
  obtain ⟨pipeOut, pipeErr, created⟩ := calls
  generalize base : (process.close handles).2 = heap at free
  have closed : process.close handles = ({}, heap) := by rw [← base]; rfl
  simp only [launch, closed]
  cases pipeOut with
  | error reason => exact .inl ⟨_, rfl, rfl⟩
  | ok ends =>
      obtain ⟨outRead, outWrite⟩ := ends
      cases pipeErr with
      | error reason =>
          simp only [Calls.returned, List.forall_mem_cons] at free
          simp only [Calls.returned, List.nodup_cons, List.mem_cons, List.not_mem_nil, or_false]
            at distinct
          obtain ⟨freeOutRead, freeOutWrite, -⟩ := free
          refine .inl ⟨processError (ascii "CreatePipe(stderr) failed: " ++ reason), rfl, ?_⟩
          simp only [Heap.close_allot_of_ne distinct.1, Heap.close_allot freeOutRead,
            Heap.close_allot freeOutWrite]
      | ok ends =>
          obtain ⟨errRead, errWrite⟩ := ends
          cases created with
          | error reason =>
              simp only [Calls.returned, List.forall_mem_cons] at free
              simp only [Calls.returned, List.nodup_cons, List.mem_cons, List.not_mem_nil,
                or_false, not_or] at distinct
              obtain ⟨freeOutRead, freeOutWrite, freeErrRead, freeErrWrite, -⟩ := free
              obtain ⟨⟨readWrite, readErrRead, readErrWrite⟩, ⟨writeErrRead, writeErrWrite⟩,
                errReadWrite, -⟩ := distinct
              refine .inl ⟨processError (ascii "CreateProcess failed for '" ++ executable ++
                ascii "': " ++ reason), rfl, ?_⟩
              simp only [Heap.close_allot_of_ne, Heap.close_allot, Heap.live_allot_of_ne, ne_eq,
                not_false_eq_true, readErrRead, Ne.symm readWrite, Ne.symm readErrWrite, writeErrRead,
                writeErrWrite, Ne.symm errReadWrite, freeOutRead, freeOutWrite, freeErrRead,
                freeErrWrite]
          | ok child =>
              obtain ⟨process, thread, pid⟩ := child
              simp only [Calls.returned, List.forall_mem_cons] at free
              simp only [Calls.returned, List.nodup_cons, List.mem_cons, List.not_mem_nil,
                or_false, not_or] at distinct
              obtain ⟨freeOutRead, freeOutWrite, freeErrRead, freeErrWrite, freeProcess, freeThread,
                -⟩ := free
              obtain ⟨⟨readWrite, readErrRead, readErrWrite, readProcess, readThread⟩,
                ⟨writeErrRead, writeErrWrite, writeProcess, writeThread⟩,
                ⟨errReadWrite, errReadProcess, errReadThread⟩, ⟨errWriteProcess, errWriteThread⟩,
                processThread, -⟩ := distinct
              refine .inr ⟨outRead, errRead, process, pid.toUInt64, ?_, ?_, ?_⟩
              · simp [readErrRead, readProcess, errReadProcess]
              · simp [freeOutRead, freeErrRead, freeProcess]
              · simp only [Heap.close_allot_of_ne, Heap.close_allot, Heap.live_allot_of_ne, ne_eq,
                  not_false_eq_true, Ne.symm readWrite, Ne.symm readErrWrite, Ne.symm readThread,
                  writeErrRead, writeErrWrite, writeProcess, writeThread, Ne.symm errReadWrite,
                  Ne.symm errReadThread, errWriteProcess, errWriteThread, Ne.symm processThread,
                  freeOutWrite, freeErrWrite, freeThread]

end Launch

section Step

variable {store next : Store} {slot : Nat} {process : Process}

theorem field_default (which : Field) : ({} : Process).field which = none := by
  cases which <;> rfl

theorem bare_default : Bare (some {}) := by
  intro there same which
  cases same
  exact field_default which

theorem bare_none : Bare none := by
  rintro _ ⟨⟩

theorem custody_launch (owned : Custody (held store.objects) store.handles)
    (found : store.objects slot = some process) (executable : Bytes) {calls : Calls}
    (fresh : calls.fresh (process.close store.handles).2 = true) :
    Custody (held (Function.update store.objects slot
        (some (launch executable calls process store.handles).2.1)))
      (launch executable calls process store.handles).2.2 := by
  have closed := custody_close owned found bare_default
  rcases launch_spec executable process store.handles fresh with
    ⟨status, -, result⟩ | ⟨outRead, errRead, created, pid, distinct, free, result⟩
  · rw [result]
    exact closed
  · simp only [List.nodup_cons, List.mem_cons, List.not_mem_nil, or_false, not_or] at distinct
    simp only [List.forall_mem_cons] at free
    obtain ⟨⟨outErr, outCreated⟩, errCreated, -⟩ := distinct
    obtain ⟨freeOut, freeErr, freeCreated, -⟩ := free
    have empty (which : Field) :
        held (Function.update store.objects slot (some {})) (slot, which) = none := by
      simp [held, field_default]
    have first := @Custody.allot _ _ _ _ _ _ _ (slot, Field.pipeOut) outRead () closed
      (empty .pipeOut) freeOut
    have second := @Custody.allot _ _ _ _ _ _ _ (slot, Field.pipeErr) errRead () first
      (by simp [empty]) (by rwa [Heap.live_allot_of_ne _ (Ne.symm outErr)])
    have third := @Custody.allot _ _ _ _ _ _ _ (slot, Field.process) created () second
      (by simp [empty])
      (by rwa [Heap.live_allot_of_ne _ (Ne.symm errCreated),
        Heap.live_allot_of_ne _ (Ne.symm outCreated)])
    rw [result]
    convert third using 1
    funext holder
    obtain ⟨other, which⟩ := holder
    by_cases here : other = slot
    · cases which <;> simp [held, here, field]
    · simp [held, here]

/-- An object takes over what another one has; what it had itself is gone by then. -/
theorem custody_take {into source : Nat} (different : into ≠ source)
    (found : store.objects source = some process) {handles : Handles}
    (owned : Custody (held (Function.update store.objects into none)) handles) :
    Custody (held (Function.update (Function.update store.objects source (some process.emptied))
      into (some process))) handles := by
  have moved := owned.reindex ((Equiv.swap into source).prodCongr (Equiv.refl Field))
  convert moved using 1
  funext holder
  obtain ⟨slot, which⟩ := holder
  by_cases here : slot = into
  · simp [held, here, different.symm, found]
  · by_cases there : slot = source
    · have nothing : process.emptied.field which = none := by cases which <;> rfl
      simp [held, there, different.symm, nothing]
    · simp [held, here, there, Equiv.swap_apply_of_ne_of_ne here there]

theorem custody_step {action : Action} {outputs : List Status}
    (owned : Custody (held store.objects) store.handles)
    (stepped : machine.step store action = some (next, outputs)) :
    Custody (held next.objects) next.handles := by
  change step store action = some (next, outputs) at stepped
  cases action with
  | construct slot =>
      simp only [step] at stepped
      split at stepped
      · rename_i absent
        cases stepped
        have same : held (Function.update store.objects slot (some {})) = held store.objects := by
          rw [held_of_bare bare_default]
          funext holder
          split
          · rename_i here
            simp [held, here, absent]
          · rfl
        exact same ▸ owned
      · cases stepped
  | moveConstruct into source =>
      simp only [step] at stepped
      split at stepped
      · rename_i process absent found
        cases stepped
        have different : into ≠ source := by
          rintro rfl
          rw [absent] at found
          cases found
        refine custody_take different found ?_
        rwa [← absent, Function.update_eq_self]
      · cases stepped
  | moveAssign into source =>
      simp only [step] at stepped
      split at stepped
      · rename_i target process target_found found
        split at stepped
        · cases stepped
          exact owned
        · rename_i different
          cases stepped
          exact custody_take different found (custody_close owned target_found bare_none)
      · cases stepped
  | launch slot executable calls =>
      simp only [step] at stepped
      split at stepped
      · cases stepped
      · rename_i process found
        split at stepped
        · rename_i fresh
          cases stepped
          exact custody_launch owned found executable fresh
        · cases stepped
  | close slot =>
      simp only [step] at stepped
      split at stepped
      · cases stepped
      · rename_i process found
        cases stepped
        exact custody_close owned found bare_default
  | destroy slot =>
      simp only [step] at stepped
      split at stepped
      · cases stepped
      · rename_i process found
        cases stepped
        exact custody_close owned found bare_none

end Step

/-- Whatever is launched, moved, closed and destroyed, and whichever calls fail: no handle
is closed that is not open, each handle that an object has is open and no other field
has it, and every open handle is some object's, so without objects none is open. -/
theorem handles_owned {history : List (Transition Store Action Status)} {final : Store}
    (run : Run machine {} history final) :
    final.handles.broken = false ∧
    (∀ slot process which handle, final.objects slot = some process →
      process.field which = some handle → final.handles.live handle = some ()) ∧
    (∀ slot other process also which whichAlso handle, final.objects slot = some process →
      final.objects other = some also → process.field which = some handle →
      also.field whichAlso = some handle → slot = other ∧ which = whichAlso) ∧
    (∀ handle, final.handles.live handle = some () → ∃ slot process which,
      final.objects slot = some process ∧ process.field which = some handle) := by
  have owned : Custody (held final.objects) final.handles :=
    run.invariant (fun store => Custody (held store.objects) store.handles) custody_step
      custody_empty
  have holds {slot : Nat} {process : Process} {which : Field} {handle : Handle}
      (found : final.objects slot = some process) (here : process.field which = some handle) :
      held final.objects (slot, which) = some (handle, ()) := by
    rw [held_eq found, here, Option.map_some]
  refine ⟨owned.intact, fun slot process which handle found here =>
    owned.live (holds found here), ?_, ?_⟩
  · intro slot other process also which whichAlso handle found foundAlso here hereAlso
    exact Prod.mk.inj (owned.unique (holds found here) (holds foundAlso hereAlso))
  · intro handle found
    obtain ⟨⟨slot, which⟩, kept⟩ := owned.covered found
    simp only [held, Option.bind_eq_some_iff, Option.map_eq_some_iff, Prod.mk.injEq] at kept
    obtain ⟨process, inside, handle, here, rfl, -⟩ := kept
    exact ⟨slot, process, which, inside, here⟩

theorem handles_owned_after_failed_launch : ∃ history final,
    Run machine {} history final ∧ final.objects 0 = some {} ∧
      final.handles.live 13 = some () ∧ final.handles.live 3 = none ∧
      final.handles.broken = false := by
  obtain ⟨history, final, run, failed, moved, closed⟩ := machine.exists_run {}
    [.construct 0, .construct 1, .launch 0 [] ⟨.ok (1, 2), .ok (3, 4), .ok (5, 6, 70)⟩,
      .launch 1 [] ⟨.ok (11, 12), .ok (13, 14), .ok (15, 16, 71)⟩, .moveAssign 0 1,
      .moveConstruct 2 0, .launch 0 [] ⟨.ok (21, 22), .ok (23, 24), .error []⟩]
    (fun _ final => final.objects 0 = some {} ∧
      final.objects 2 = some { process := some 15, pid := 71, pipeOut := some 11,
                               pipeErr := some 13 } ∧
      final.handles.live 3 = none) (by decide +kernel)
  obtain ⟨intact, live, -⟩ := handles_owned run
  exact ⟨history, final, run, failed, live 2 _ .pipeErr 13 moved rfl, closed, intact⟩

end Process

end ChaosLab
