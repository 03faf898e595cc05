import Mathlib.Data.List.Basic

/-! Blocking sends that may take a part of what they are offered, the counterpart of
reads from a stream that arrives in pieces. A script says what the successive sends
do: take at most so many symbols, or fail, and a broken connection stays broken.
Past the end of the script a send waits. -/

set_option autoImplicit false

namespace Foundation

variable {Symbol : Type}

inductive Departure where
  | takes (count : Nat) (positive : 0 < count)
  | broken
deriving DecidableEq

inductive Transmitted where
  | waiting
  | failed
  | complete
deriving DecidableEq

/-- Send what is not sent yet of `size` symbols until all of them are. -/
def transmit (size sent : Nat) : List Departure → Transmitted × Nat × List Departure
  | [] => if sent < size then (.waiting, sent, []) else (.complete, sent, [])
  | .broken :: later =>
      if sent < size then (.failed, sent, .broken :: later)
      else (.complete, sent, .broken :: later)
  | .takes count positive :: later =>
      if sent < size then transmit size (sent + min count (size - sent)) later
      else (.complete, sent, .takes count positive :: later)

/-- All that `transmit` can come to. -/
inductive Transmits (size : Nat) : Transmitted → Nat → List Departure → Prop where
  | waiting {sent : Nat} (short : sent < size) : Transmits size .waiting sent []
  | failed {sent : Nat} {later : List Departure} (short : sent < size) :
      Transmits size .failed sent (.broken :: later)
  | complete {later : List Departure} : Transmits size .complete size later

theorem transmits_transmit {size sent : Nat} (within : sent ≤ size) (script : List Departure) :
    Transmits size (transmit size sent script).1 (transmit size sent script).2.1
      (transmit size sent script).2.2 := by
  induction script generalizing sent with
  | nil =>
      simp only [transmit]
      split
      · exact .waiting ‹_›
      · obtain rfl : sent = size := by omega
        exact .complete
  | cons departure later ih =>
      cases departure with
      | broken =>
          simp only [transmit]
          split
          · exact .failed ‹_›
          · obtain rfl : sent = size := by omega
            exact .complete
      | takes count positive =>
          simp only [transmit]
          split
          · exact ih (by omega)
          · obtain rfl : sent = size := by omega
            exact .complete

theorem transmits_of_transmit {size sent : Nat} {script later : List Departure}
    {result : Transmitted} (ran : transmit size 0 script = (result, sent, later)) :
    Transmits size result sent later := by
  have transmits := transmits_transmit (Nat.zero_le size) script
  rwa [ran] at transmits

end Foundation
