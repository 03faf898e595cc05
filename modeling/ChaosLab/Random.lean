import ChaosLab.Bytes

/-! The pseudo-random stream of `random.h`. Each call returns its value and the
generator it leaves behind. -/

set_option autoImplicit false

namespace ChaosLab

structure SplitMix64 where
  state : UInt64
deriving DecidableEq

namespace SplitMix64

def next (rng : SplitMix64) : UInt64 × SplitMix64 :=
  let state := rng.state + 0x9e3779b97f4a7c15
  let z := (state ^^^ state >>> 30) * 0xbf58476d1ce4e5b9
  let z := (z ^^^ z >>> 27) * 0x94d049bb133111eb
  (z ^^^ z >>> 31, ⟨state⟩)

/-- `none` where the remainder would be one by zero. -/
def uniform (rng : SplitMix64) (lo hi : UInt64) : Option (UInt64 × SplitMix64) :=
  if hi ≤ lo then some (lo, rng)
  else
    let span := hi - lo + 1
    if span = 0 then none else some (lo + rng.next.1 % span, rng.next.2)

/-- Nothing is drawn for zero. -/
def below (rng : SplitMix64) (n : UInt64) : UInt64 × SplitMix64 :=
  if n = 0 then (0, rng) else (rng.next.1 % n, rng.next.2)

theorem below_lt (rng : SplitMix64) {n : UInt64} (positive : n ≠ 0) : (rng.below n).1 < n := by
  rw [below, if_neg positive]
  exact UInt64.mod_lt _ (UInt64.pos_iff_ne_zero.mpr positive)

end SplitMix64

end ChaosLab
