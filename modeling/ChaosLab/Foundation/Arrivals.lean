import Mathlib.Data.List.Basic

/-! Blocking reads from a stream that arrives in pieces. A script says what the
successive receives find: a piece of the stream, a failed receive, or its end.
Past the end of the script a receive waits. -/

set_option autoImplicit false

namespace Foundation

variable {Symbol : Type}

inductive Arrival (Symbol : Type) where
  | data (chunk : List Symbol) (nonempty : chunk ≠ [])
  | failure
  | closed
deriving DecidableEq

inductive Received (Symbol : Type) where
  | waiting
  | failed
  | symbols (received : List Symbol)
deriving DecidableEq

/-- One receive of at most `cap` symbols. What does not fit stays for the next one,
and a closed stream stays closed. -/
def receive (cap : Nat) : List (Arrival Symbol) → Received Symbol × List (Arrival Symbol)
  | [] => (.waiting, [])
  | .failure :: later => (.failed, later)
  | .closed :: later => (.symbols [], .closed :: later)
  | .data chunk nonempty :: later =>
      if exceeds : cap < chunk.length then
        (.symbols (chunk.take cap),
          .data (chunk.drop cap) (by simpa using exceeds) :: later)
      else (.symbols chunk, later)

inductive Gathered (Symbol : Type) where
  | waiting
  | failed
  | ended
  | complete (gathered : List Symbol)
deriving DecidableEq

/-- Receive until `needed` symbols are there. -/
def gather (needed : Nat) (got : List Symbol) (arrivals : List (Arrival Symbol)) :
    Gathered Symbol × List (Arrival Symbol) :=
  if got.length < needed then
    match receive (needed - got.length) arrivals with
    | (.waiting, later) => (.waiting, later)
    | (.failed, later) => (.failed, later)
    | (.symbols [], later) => (.ended, later)
    | (.symbols (first :: more), later) => gather needed (got ++ first :: more) later
  else (.complete got, arrivals)
termination_by needed - got.length
decreasing_by simp only [List.length_append, List.length_cons]; omega

/-- The symbols that arrive before the first failure or end. -/
def incoming : List (Arrival Symbol) → List Symbol
  | [] => []
  | .data chunk _ :: later => chunk ++ incoming later
  | .failure :: _ => []
  | .closed :: _ => []

/-- The script from its first failure or end on. -/
def afterIncoming : List (Arrival Symbol) → List (Arrival Symbol)
  | [] => []
  | .data _ _ :: later => afterIncoming later
  | .failure :: later => .failure :: later
  | .closed :: later => .closed :: later

/-- What a read sees that runs out of symbols. -/
def interruption : List (Arrival Symbol) → Gathered Symbol
  | .failure :: _ => .failed
  | .closed :: _ => .ended
  | _ => .waiting

/-- The script without its failed receives. -/
def uninterrupted : List (Arrival Symbol) → List (Arrival Symbol)
  | [] => []
  | .data chunk nonempty :: later => .data chunk nonempty :: uninterrupted later
  | .failure :: later => uninterrupted later
  | .closed :: later => .closed :: uninterrupted later

/-- A failed receive can only cut short what arrives. -/
theorem incoming_prefix_uninterrupted (arrivals : List (Arrival Symbol)) :
    incoming arrivals <+: incoming (uninterrupted arrivals) := by
  induction arrivals with
  | nil => exact List.prefix_refl _
  | cons arrival later ih =>
      cases arrival with
      | data chunk nonempty => exact (List.prefix_append_right_inj chunk).mpr ih
      | failure => exact List.nil_prefix
      | closed => exact List.prefix_refl _

section Receive

variable {cap needed : Nat} {got : List Symbol} {arrivals later : List (Arrival Symbol)}

/-- All that a receive can find, and what it leaves of the script. -/
inductive Finds (cap : Nat) :
    List (Arrival Symbol) → Received Symbol → List (Arrival Symbol) → Prop where
  | waiting : Finds cap [] .waiting []
  | failed {rest} : Finds cap (.failure :: rest) .failed rest
  | closed {rest} : Finds cap (.closed :: rest) (.symbols []) (.closed :: rest)
  | data {chunk nonempty rest found left}
      (whole : incoming (.data chunk nonempty :: rest) = found ++ incoming left)
      (after : afterIncoming left = afterIncoming (.data chunk nonempty :: rest))
      (fits : found.length ≤ cap) (some : 0 < cap → found ≠ []) :
      Finds cap (.data chunk nonempty :: rest) (.symbols found) left

theorem finds_receive (cap : Nat) (arrivals : List (Arrival Symbol)) :
    Finds cap arrivals (receive cap arrivals).1 (receive cap arrivals).2 := by
  cases arrivals with
  | nil => exact .waiting
  | cons arrival rest =>
      cases arrival with
      | failure => exact .failed
      | closed => exact .closed
      | data chunk nonempty =>
          simp only [receive]
          split
          · refine .data ?_ rfl (List.length_take_le cap chunk) fun positive => ?_
            · simp [incoming, ← List.append_assoc]
            · simp only [ne_eq, List.take_eq_nil_iff, nonempty, or_false]
              omega
          · exact .data rfl rfl (by omega) fun _ => nonempty

theorem finds_of_receive {found : Received Symbol}
    (received : receive cap arrivals = (found, later)) : Finds cap arrivals found later := by
  have finds := finds_receive cap arrivals
  rwa [received] at finds

theorem eq_nil_of_receive_waiting (received : receive cap arrivals = (.waiting, later)) :
    arrivals = [] := by
  cases finds_of_receive received with
  | waiting => rfl

theorem eq_failure_of_receive_failed (received : receive cap arrivals = (.failed, later)) :
    arrivals = .failure :: later := by
  cases finds_of_receive received with
  | failed => rfl

theorem eq_closed_of_receive_nil (positive : 0 < cap)
    (received : receive cap arrivals = (.symbols [], later)) :
    ∃ rest, arrivals = .closed :: rest := by
  cases finds_of_receive received with
  | closed => exact ⟨_, rfl⟩
  | data _ _ _ some => exact absurd rfl (some positive)

theorem incoming_of_receive {first : Symbol} {more : List Symbol}
    (received : receive cap arrivals = (.symbols (first :: more), later)) :
    incoming arrivals = (first :: more) ++ incoming later ∧
      afterIncoming later = afterIncoming arrivals ∧ (first :: more).length ≤ cap := by
  cases finds_of_receive received with
  | data whole after fits _ => exact ⟨whole, after, fits⟩

theorem gather_of_le (room : got.length ≤ needed)
    (enough : needed ≤ got.length + (incoming arrivals).length) :
    ∃ later, gather needed got arrivals =
        (.complete (got ++ (incoming arrivals).take (needed - got.length)), later) ∧
      incoming later = (incoming arrivals).drop (needed - got.length) ∧
      afterIncoming later = afterIncoming arrivals := by
  fun_induction gather needed got arrivals with
  | case1 got arrivals short later received =>
      rw [eq_nil_of_receive_waiting received, incoming, List.length_nil] at enough
      omega
  | case2 got arrivals short later received =>
      rw [eq_failure_of_receive_failed received, incoming, List.length_nil] at enough
      omega
  | case3 got arrivals short later received =>
      obtain ⟨rest, rfl⟩ := eq_closed_of_receive_nil (Nat.sub_pos_of_lt short) received
      rw [incoming, List.length_nil] at enough
      omega
  | case4 got arrivals short first more later received ih =>
      obtain ⟨whole, after, fits⟩ := incoming_of_receive received
      have missing : needed - got.length - (first :: more).length =
          needed - (got ++ first :: more).length := by
        rw [List.length_append]
        omega
      rw [whole, List.length_append] at enough
      obtain ⟨final, gathered, left, same⟩ := ih
        (by rw [List.length_append]; omega) (by rw [List.length_append]; omega)
      refine ⟨final, ?_, ?_, same.trans after⟩
      · rw [gathered, whole, List.take_append, List.take_of_length_le fits, missing,
          List.append_assoc]
      · rw [left, whole, List.drop_append, List.drop_of_length_le fits, missing, List.nil_append]
  | case5 got arrivals full =>
      have none : needed - got.length = 0 := by omega
      exact ⟨arrivals, by simp [none], by simp [none], rfl⟩

theorem gather_of_lt (lacking : got.length + (incoming arrivals).length < needed) :
    ∃ later, gather needed got arrivals = (interruption (afterIncoming arrivals), later) := by
  fun_induction gather needed got arrivals with
  | case1 got arrivals short later received =>
      rw [eq_nil_of_receive_waiting received]
      exact ⟨later, rfl⟩
  | case2 got arrivals short later received =>
      rw [eq_failure_of_receive_failed received]
      exact ⟨later, rfl⟩
  | case3 got arrivals short later received =>
      obtain ⟨rest, rfl⟩ := eq_closed_of_receive_nil (Nat.sub_pos_of_lt short) received
      exact ⟨later, rfl⟩
  | case4 got arrivals short first more later received ih =>
      obtain ⟨whole, after, -⟩ := incoming_of_receive received
      rw [whole, List.length_append] at lacking
      rw [← after]
      exact ih (by rw [List.length_append]; omega)
  | case5 got arrivals full => omega

theorem gather_nil_of_le (enough : needed ≤ (incoming arrivals).length) :
    ∃ later, gather needed [] arrivals = (.complete ((incoming arrivals).take needed), later) ∧
      incoming later = (incoming arrivals).drop needed ∧
      afterIncoming later = afterIncoming arrivals := by
  have total : needed ≤ ([] : List Symbol).length + (incoming arrivals).length := by
    simpa using enough
  simpa using gather_of_le (Nat.zero_le needed) total

theorem gather_nil_append {body rest : List Symbol} (arrives : incoming arrivals = body ++ rest) :
    ∃ later, gather body.length [] arrivals = (.complete body, later) ∧
      incoming later = rest ∧ afterIncoming later = afterIncoming arrivals := by
  have enough : body.length ≤ (incoming arrivals).length := by
    rw [arrives, List.length_append]
    exact Nat.le_add_right _ _
  obtain ⟨later, gathered, remaining, after⟩ := gather_nil_of_le enough
  rw [arrives, List.take_left] at gathered
  rw [arrives, List.drop_left] at remaining
  exact ⟨later, gathered, remaining, after⟩

theorem gather_nil_of_lt (lacking : (incoming arrivals).length < needed) :
    ∃ later, gather needed [] arrivals = (interruption (afterIncoming arrivals), later) :=
  gather_of_lt (by simpa using lacking)

theorem interruption_cases (arrivals : List (Arrival Symbol)) :
    (interruption arrivals : Gathered Symbol) = .waiting ∨
      (interruption arrivals : Gathered Symbol) = .failed ∨
      (interruption arrivals : Gathered Symbol) = .ended := by
  unfold interruption
  split
  · exact .inr (.inl rfl)
  · exact .inr (.inr rfl)
  · exact .inl rfl

theorem interruption_of_ne_nil (ends : afterIncoming arrivals ≠ []) :
    (interruption (afterIncoming arrivals) : Gathered Symbol) = .failed ∨
      (interruption (afterIncoming arrivals) : Gathered Symbol) = .ended := by
  induction arrivals with
  | nil => exact absurd rfl ends
  | cons arrival later ih =>
      cases arrival with
      | data chunk nonempty => exact ih ends
      | failure => exact .inl rfl
      | closed => exact .inr rfl

theorem length_incoming_of_gather {gathered : List Symbol}
    (complete : gather needed [] arrivals = (.complete gathered, later)) :
    (incoming later).length + needed = (incoming arrivals).length := by
  by_cases enough : needed ≤ (incoming arrivals).length
  · obtain ⟨rest, read, left, -⟩ := gather_nil_of_le enough
    rw [complete, Prod.mk.injEq] at read
    rw [read.2, left, List.length_drop]
    omega
  · obtain ⟨rest, read⟩ := gather_nil_of_lt (Nat.lt_of_not_le enough)
    rw [complete, Prod.mk.injEq] at read
    rcases interruption_cases (afterIncoming arrivals) with stopped | stopped | stopped
    all_goals
      rw [stopped] at read
      cases read.1

end Receive

end Foundation
