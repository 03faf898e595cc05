import Mathlib.Logic.Equiv.Basic
import Mathlib.Logic.Function.Basic

/-! Resources that are handed out under handles, and the holders that own them. When
every live resource is held exactly once and everything held is live, nothing is
closed twice and nothing is left behind. -/

set_option autoImplicit false

namespace Foundation

variable {Holder Handle Data : Type}

/-- What is live, with what is known of it. Closing what is not live breaks the heap. -/
structure Heap (Handle Data : Type) where
  live : Handle → Option Data := fun _ => none
  broken : Bool := false

structure Custody (held : Holder → Option (Handle × Data)) (heap : Heap Handle Data) : Prop where
  intact : heap.broken = false
  live : ∀ {holder handle data}, held holder = some (handle, data) → heap.live handle = some data
  unique : ∀ {holder other handle data also}, held holder = some (handle, data) →
    held other = some (handle, also) → holder = other
  covered : ∀ {handle data}, heap.live handle = some data →
    ∃ holder, held holder = some (handle, data)

theorem custody_empty : Custody (fun _ : Holder => none) ({} : Heap Handle Data) where
  intact := rfl
  live := by simp
  unique := by simp
  covered := by simp

section Move

variable {held : Holder → Option (Handle × Data)} {heap : Heap Handle Data}

/-- What is held is held under other names of the holders. -/
theorem Custody.reindex (owned : Custody held heap) (names : Holder ≃ Holder) :
    Custody (held ∘ names) heap where
  intact := owned.intact
  live := fun holds => owned.live holds
  unique := fun holds holdsAlso => names.injective (owned.unique holds holdsAlso)
  covered := by
    intro handle data found
    obtain ⟨holder, holds⟩ := owned.covered found
    exact ⟨names.symm holder, by simpa using holds⟩

/-- What one holder held is held by another. -/
theorem Custody.move [DecidableEq Holder] (owned : Custody held heap) {into source : Holder}
    (free : held into = none) :
    Custody (Function.update (Function.update held source none) into (held source)) heap := by
  have swapped := owned.reindex (Equiv.swap into source)
  have same : held ∘ Equiv.swap into source =
      Function.update (Function.update held source none) into (held source) := by
    funext holder
    by_cases here : holder = into
    · simp [here]
    · by_cases there : holder = source
      · have apart : source ≠ into := fun same => here (there.trans same)
        simp [there, free, apart]
      · simp [Function.comp_apply, Equiv.swap_apply_of_ne_of_ne here there, here, there]
  rwa [same] at swapped

end Move

variable [DecidableEq Handle]

def Heap.allot (heap : Heap Handle Data) (handle : Handle) (data : Data) : Heap Handle Data :=
  { heap with live := Function.update heap.live handle (some data) }

def Heap.close (heap : Heap Handle Data) (handle : Handle) : Heap Handle Data :=
  if (heap.live handle).isSome then { heap with live := Function.update heap.live handle none }
  else { heap with broken := true }

theorem Heap.close_allot {heap : Heap Handle Data} {handle : Handle}
    (fresh : heap.live handle = none) (data : Data) : (heap.allot handle data).close handle = heap := by
  have same : Function.update heap.live handle none = heap.live := by
    rw [← fresh, Function.update_eq_self]
  simp [Heap.close, Heap.allot, same]

theorem Heap.close_allot_of_ne {heap : Heap Handle Data} {handle other : Handle}
    (different : handle ≠ other) (data : Data) :
    (heap.allot other data).close handle = (heap.close handle).allot other data := by
  simp only [Heap.close, Heap.allot, Function.update_of_ne different]
  split
  · rw [Function.update_comm different]
  · rfl

theorem Heap.live_allot_of_ne (heap : Heap Handle Data) {handle other : Handle}
    (different : handle ≠ other) (data : Data) :
    (heap.allot other data).live handle = heap.live handle := by
  simp [Heap.allot, different]

variable [DecidableEq Holder] {held : Holder → Option (Handle × Data)} {heap : Heap Handle Data}
  {holder : Holder} {handle : Handle} {data : Data}

theorem Custody.allot (owned : Custody held heap) (free : held holder = none)
    (fresh : heap.live handle = none) :
    Custody (Function.update held holder (some (handle, data))) (heap.allot handle data) where
  intact := owned.intact
  live := by
    intro other found content holds
    by_cases same : other = holder
    · subst same
      rw [Function.update_self] at holds
      cases holds
      simp [Heap.allot]
    · rw [Function.update_of_ne same] at holds
      have before := owned.live holds
      have different : found ≠ handle := by
        rintro rfl
        rw [fresh] at before
        cases before
      simpa [Heap.allot, different] using before
  unique := by
    intro first second found content also holds holdsAlso
    have apart {place : Holder} {content : Data} : held place ≠ some (handle, content) := by
      intro holds
      rw [owned.live holds] at fresh
      cases fresh
    by_cases here : first = holder <;> by_cases there : second = holder
    · rw [here, there]
    · subst here
      rw [Function.update_self] at holds
      rw [Function.update_of_ne there] at holdsAlso
      cases holds
      exact absurd holdsAlso apart
    · subst there
      rw [Function.update_self] at holdsAlso
      rw [Function.update_of_ne here] at holds
      cases holdsAlso
      exact absurd holds apart
    · rw [Function.update_of_ne here] at holds
      rw [Function.update_of_ne there] at holdsAlso
      exact owned.unique holds holdsAlso
  covered := by
    intro found content found_live
    by_cases same : found = handle
    · subst same
      simp only [Heap.allot, Function.update_self, Option.some.injEq] at found_live
      exact ⟨holder, by rw [Function.update_self, found_live]⟩
    · simp only [Heap.allot, Function.update_of_ne same] at found_live
      obtain ⟨other, holds⟩ := owned.covered found_live
      have different : other ≠ holder := by
        rintro rfl
        rw [free] at holds
        cases holds
      exact ⟨other, by rwa [Function.update_of_ne different]⟩

theorem Custody.close (owned : Custody held heap) (holds : held holder = some (handle, data)) :
    Custody (Function.update held holder none) (heap.close handle) := by
  have present : (heap.live handle).isSome = true := by rw [owned.live holds, Option.isSome_some]
  have elsewhere {other : Holder} {found : Handle} {content : Data}
      (kept : Function.update held holder none other = some (found, content)) :
      held other = some (found, content) ∧ found ≠ handle := by
    by_cases same : other = holder
    · rw [same, Function.update_self] at kept
      cases kept
    · rw [Function.update_of_ne same] at kept
      exact ⟨kept, fun again => same (owned.unique (again ▸ kept) holds)⟩
  rw [Heap.close, if_pos present]
  refine ⟨owned.intact, ?_, ?_, ?_⟩
  · intro other found content kept
    obtain ⟨before, different⟩ := elsewhere kept
    simpa [different] using owned.live before
  · intro first second found content also kept keptAlso
    exact owned.unique (elsewhere kept).1 (elsewhere keptAlso).1
  · intro found content found_live
    by_cases same : found = handle
    · simp [same] at found_live
    · simp only [Function.update_of_ne same] at found_live
      obtain ⟨other, before⟩ := owned.covered found_live
      have different : other ≠ holder := by
        rintro rfl
        rw [holds] at before
        cases before
        exact same rfl
      exact ⟨other, by rwa [Function.update_of_ne different]⟩

end Foundation
