import Mathlib.Logic.Function.Basic

/-! Messages in flight: for each key a queue, which messages enter at the end and
leave at the front. -/

set_option autoImplicit false

namespace Foundation

abbrev Channels (Key Message : Type) := Key → List Message

namespace Channels

variable {Key Message : Type}

def empty : Channels Key Message := fun _ => []

/-- More messages on every channel at once. -/
def append (channels : Channels Key Message) (more : Key → List Message) :
    Channels Key Message :=
  fun key => channels key ++ more key

/-- Every message in flight is as its channel demands. -/
def Each (holds : Key → Message → Prop) (channels : Channels Key Message) : Prop :=
  ∀ key, ∀ message ∈ channels key, holds key message

variable {holds other : Key → Message → Prop} {channels : Channels Key Message} {key : Key}

theorem each_empty : Each holds (empty : Channels Key Message) := by simp [Each, empty]

theorem Each.imp (each : Each holds channels)
    (weaken : ∀ key message, holds key message → other key message) : Each other channels :=
  fun key message member => weaken key message (each key message member)

theorem Each.append (each : Each holds channels) {more : Key → List Message}
    (added : ∀ key, ∀ message ∈ more key, holds key message) :
    Each holds (channels.append more) := by
  intro key message member
  exact (List.mem_append.mp member).elim (each key message) (added key message)

variable [DecidableEq Key]

def push (channels : Channels Key Message) (key : Key) (messages : List Message) :
    Channels Key Message :=
  Function.update channels key (channels key ++ messages)

/-- A channel with another content; its demand may be another too. -/
theorem Each.update (each : Each holds channels) {messages : List Message}
    (there : ∀ message ∈ messages, other key message)
    (elsewhere : ∀ place, place ≠ key → ∀ message, holds place message → other place message) :
    Each other (Function.update channels key messages) := by
  intro place message member
  by_cases same : place = key
  · subst same
    rw [Function.update_self] at member
    exact there message member
  · rw [Function.update_of_ne same] at member
    exact elsewhere place same message (each place message member)

theorem Each.push (each : Each holds channels) {messages : List Message}
    (added : ∀ message ∈ messages, holds key message) :
    Each holds (channels.push key messages) := by
  refine each.update (fun message member => ?_) fun _ _ _ kept => kept
  exact (List.mem_append.mp member).elim (each key message) (added message)

/-- What is left of a channel: some of the messages that were there. -/
theorem Each.shrink (each : Each holds channels) {messages : List Message}
    (fewer : messages ⊆ channels key) : Each holds (Function.update channels key messages) :=
  each.update (fun message member => each key message (fewer member)) fun _ _ _ kept => kept

end Channels

end Foundation
