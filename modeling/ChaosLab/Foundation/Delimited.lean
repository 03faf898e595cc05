import Mathlib.Data.List.Basic
import Mathlib.Data.List.DropRight
import Mathlib.Data.Finset.Max

/-! Lists cut at a delimiter and joined by it, cut at a first occurrence, stripped of a tail,
and read through a two-symbol escape. Everything is over an arbitrary
alphabet; no format is fixed here. -/

set_option autoImplicit false

namespace Foundation

variable {Symbol : Type}

theorem intercalate_cons (delimiter first : List Symbol) (parts : List (List Symbol)) :
    delimiter.intercalate (first :: parts) = first ++ parts.flatMap (delimiter ++ ·) := by
  induction parts generalizing first with
  | nil => simp
  | cons second parts ih =>
      rw [List.intercalate_cons_cons, ih, List.flatMap_cons, List.append_assoc,
        List.append_assoc]

/-- A loop that writes the delimiter before every item but the first. -/
theorem intercalate_map_eq_loop {Entry : Type} {delimiter : List Symbol}
    {item : Entry → List Symbol} {loop : Bool → List Entry → List Symbol}
    (done : ∀ first, loop first [] = [])
    (next : ∀ first entry entries, loop first (entry :: entries) =
      (if first then [] else delimiter) ++ item entry ++ loop false entries)
    (entries : List Entry) : delimiter.intercalate (entries.map item) = loop true entries := by
  have later (entries : List Entry) : loop false entries =
      (entries.map item).flatMap (delimiter ++ ·) := by
    induction entries with
    | nil => exact done false
    | cons entry entries ih =>
        rw [next, ih, List.map_cons, List.flatMap_cons]
        rfl
  cases entries with
  | nil => rw [done, List.map_nil, List.intercalate_nil]
  | cons entry entries =>
      rw [List.map_cons, intercalate_cons, ← later, next]
      rfl

section Split

variable [BEq Symbol]

theorem length_splitOn (delimiter : Symbol) (text : List Symbol) :
    (text.splitOn delimiter).length = text.count delimiter + 1 := by
  induction text with
  | nil => simp
  | cons head tail ih =>
      rw [List.splitOn_cons_eq_if_modifyHead, List.count_cons]
      by_cases same : (head == delimiter) = true
      · simp [same, ih]
      · simp [same, ih]

theorem sublist_of_mem_splitOn {delimiter : Symbol} {text part : List Symbol}
    (member : part ∈ text.splitOn delimiter) : part.Sublist text := by
  induction text generalizing part with
  | nil =>
      have empty : part = [] := by simpa using member
      rw [empty]
  | cons head tail ih =>
      rw [List.splitOn_cons_eq_if_modifyHead] at member
      by_cases same : (head == delimiter) = true
      · rw [if_pos same, List.mem_cons] at member
        rcases member with rfl | member
        · exact List.nil_sublist _
        · exact (ih member).cons head
      · rw [if_neg same] at member
        cases pieces : tail.splitOn delimiter with
        | nil => exact absurd pieces (List.splitOn_ne_nil _ _)
        | cons first others =>
            rw [pieces] at member ih
            rw [List.modifyHead_cons, List.mem_cons] at member
            rcases member with rfl | member
            · exact (ih (.head _)).cons_cons head
            · exact (ih (.tail _ member)).cons head

variable [LawfulBEq Symbol]

theorem not_mem_of_mem_splitOn {delimiter : Symbol} {text part : List Symbol}
    (member : part ∈ text.splitOn delimiter) : delimiter ∉ part := by
  induction text generalizing part with
  | nil =>
      have empty : part = [] := by simpa using member
      simp [empty]
  | cons head tail ih =>
      rw [List.splitOn_cons_eq_if_modifyHead] at member
      by_cases same : (head == delimiter) = true
      · simp only [same, ↓reduceIte, List.mem_cons] at member
        rcases member with rfl | member
        · simp
        · exact ih member
      · simp only [same] at member
        cases pieces : tail.splitOn delimiter with
        | nil => exact absurd pieces (List.splitOn_ne_nil _ _)
        | cons first others =>
            rw [pieces] at member ih
            simp only [Bool.false_eq_true, ↓reduceIte, List.modifyHead_cons, List.mem_cons]
              at member
            rcases member with rfl | member
            · have different : delimiter ≠ head := by
                rintro rfl
                simp at same
              simpa [different] using ih (.head _)
            · exact ih (.tail _ member)

/-- The parts of a text are its only parts without the delimiter, joined by it. -/
theorem splitOn_eq_iff {delimiter : Symbol} {text : List Symbol} {parts : List (List Symbol)} :
    text.splitOn delimiter = parts ↔
      parts ≠ [] ∧ (∀ part ∈ parts, delimiter ∉ part) ∧
        [delimiter].intercalate parts = text := by
  constructor
  · rintro rfl
    exact ⟨List.splitOn_ne_nil _ _, fun part member => not_mem_of_mem_splitOn member,
      List.intercalate_splitOn _⟩
  · rintro ⟨nonempty, clean, rfl⟩
    exact List.splitOn_intercalate delimiter clean nonempty

end Split

section Cut

variable [DecidableEq Symbol]

/-- Cut at the first occurrence of a symbol, which is dropped. -/
def cutAt (symbol : Symbol) (text : List Symbol) : Option (List Symbol × List Symbol) :=
  if symbol ∈ text then
    some (text.takeWhile (· ≠ symbol), (text.dropWhile (· ≠ symbol)).tail)
  else
    none

theorem cutAt_append {symbol : Symbol} {before : List Symbol} (absent : symbol ∉ before)
    (after : List Symbol) :
    cutAt symbol (before ++ symbol :: after) = some (before, after) := by
  have passes : ∀ x ∈ before, decide (x ≠ symbol) = true := by
    intro x member
    have different : x ≠ symbol := fun same => absent (same ▸ member)
    simpa using different
  rw [cutAt, if_pos (by simp), List.takeWhile_append_of_pos passes,
    List.dropWhile_append_of_pos passes]
  simp

theorem cutAt_eq_none_iff {symbol : Symbol} {text : List Symbol} :
    cutAt symbol text = none ↔ symbol ∉ text := by
  simp [cutAt]

theorem cutAt_eq_some_iff {symbol : Symbol} {text before after : List Symbol} :
    cutAt symbol text = some (before, after) ↔
      symbol ∉ before ∧ text = before ++ symbol :: after := by
  constructor
  · intro cut
    have present : symbol ∈ text := by
      by_contra absent
      rw [cutAt_eq_none_iff.mpr absent] at cut
      cases cut
    obtain ⟨left, right, rfl, absent⟩ := List.eq_append_cons_of_mem present
    rw [cutAt_append absent] at cut
    obtain ⟨rfl, rfl⟩ := Prod.mk.inj (Option.some.inj cut)
    exact ⟨absent, rfl⟩
  · intro cut
    obtain ⟨absent, whole⟩ := cut
    rw [whole]
    exact cutAt_append absent after

end Cut

theorem rdropWhile_append_cons {strip : Symbol → Bool} {kept : Symbol}
    (keeps : strip kept = false) (before after : List Symbol) :
    (before ++ kept :: after).rdropWhile strip = before ++ kept :: after.rdropWhile strip := by
  induction after using List.reverseRecOn with
  | nil =>
      rw [List.rdropWhile_concat_neg strip before kept (by simp [keeps])]
      simp
  | append_singleton after last ih =>
      rw [← List.cons_append, ← List.append_assoc, List.rdropWhile_concat,
        List.rdropWhile_concat]
      split
      · exact ih
      · simp

section Escape

variable [DecidableEq Symbol] {mark : Symbol} {decode : Symbol → Option Symbol}

/-- Reads `mark` followed by a decodable symbol as one symbol, left to right. -/
def collapse (mark : Symbol) (decode : Symbol → Option Symbol) : List Symbol → List Symbol
  | [] => []
  | [last] => [last]
  | first :: second :: rest =>
      if first = mark then
        match decode second with
        | some symbol => symbol :: collapse mark decode rest
        | none => first :: collapse mark decode (second :: rest)
      else
        first :: collapse mark decode (second :: rest)

theorem length_collapse_le (mark : Symbol) (decode : Symbol → Option Symbol)
    (text : List Symbol) : (collapse mark decode text).length ≤ text.length := by
  fun_induction collapse mark decode text with
  | case1 | case2 => simp
  | case3 second rest symbol decoded ih =>
      simp only [List.length_cons]
      omega
  | case4 second rest undecoded ih | case5 first second rest unmarked ih =>
      simpa using ih

theorem collapse_eq_self (text : List Symbol)
    (plain : ∀ second, (decode second).isSome → ¬ [mark, second] <:+: text) :
    collapse mark decode text = text := by
  fun_induction collapse mark decode text with
  | case1 => rfl
  | case2 => rfl
  | case3 second rest symbol decoded ih =>
      have escaped : [mark, second] <:+: mark :: second :: rest := ⟨[], rest, by simp⟩
      exact absurd escaped (plain second (by simp [decoded]))
  | case4 second rest undecoded ih =>
      rw [ih fun other decodable inside => plain other decodable (List.infix_cons inside)]
  | case5 first second rest unmarked ih =>
      rw [ih fun other decodable inside => plain other decodable (List.infix_cons inside)]

theorem length_collapse_lt {text : List Symbol} {escaped : Symbol}
    (decodable : (decode escaped).isSome) (inside : [mark, escaped] <:+: text) :
    (collapse mark decode text).length < text.length := by
  fun_induction collapse mark decode text with
  | case1 => simp at inside
  | case2 => simpa using inside.length_le
  | case3 second rest symbol decoded ih =>
      have bound := length_collapse_le mark decode rest
      simp only [List.length_cons]
      omega
  | case4 second rest undecoded ih =>
      rcases List.infix_cons_iff.mp inside with here | further
      · obtain ⟨_, same⟩ := here
        simp only [List.cons_append, List.cons.injEq] at same
        rw [same.2.1, undecoded] at decodable
        simp at decodable
      · simpa using ih further
  | case5 first second rest unmarked ih =>
      rcases List.infix_cons_iff.mp inside with here | further
      · obtain ⟨_, same⟩ := here
        simp only [List.cons_append, List.cons.injEq] at same
        exact absurd same.1.symm unmarked
      · simpa using ih further

theorem collapse_eq_self_iff {text : List Symbol} :
    collapse mark decode text = text ↔
      ∀ second, (decode second).isSome → ¬ [mark, second] <:+: text := by
  constructor
  · intro same second decodable inside
    have shorter := length_collapse_lt decodable inside
    rw [same] at shorter
    omega
  · exact collapse_eq_self text

theorem length_collapse_lt_of_ne {text : List Symbol}
    (changed : collapse mark decode text ≠ text) :
    (collapse mark decode text).length < text.length := by
  rw [ne_eq, collapse_eq_self_iff] at changed
  push Not at changed
  obtain ⟨second, decodable, inside⟩ := changed
  exact length_collapse_lt decodable inside

/-- Whatever is collapsed leaves a decoded symbol behind. -/
theorem collapse_eq_self_of_notMem {text : List Symbol}
    (clean : ∀ second symbol, decode second = some symbol → symbol ∉ collapse mark decode text) :
    collapse mark decode text = text := by
  fun_induction collapse mark decode text with
  | case1 | case2 => rfl
  | case3 second rest symbol decoded ih => exact absurd (.head _) (clean second symbol decoded)
  | case4 second rest undecoded ih | case5 first second rest unmarked ih =>
      rw [ih fun other symbol decoded inside => clean other symbol decoded (.tail _ inside)]

theorem mem_collapse {text : List Symbol} {symbol : Symbol}
    (member : symbol ∈ collapse mark decode text) :
    symbol ∈ text ∨ ∃ second, decode second = some symbol := by
  fun_induction collapse mark decode text with
  | case1 => simp at member
  | case2 => exact .inl member
  | case3 second rest decodedSymbol decoded ih =>
      rcases List.mem_cons.mp member with rfl | member
      · exact .inr ⟨second, decoded⟩
      · exact (ih member).imp_left fun inside => by simp [inside]
  | case4 second rest undecoded ih | case5 first second rest unmarked ih =>
      rcases List.mem_cons.mp member with rfl | member
      · exact .inl (.head _)
      · exact (ih member).imp_left fun inside => .tail _ inside

end Escape

/-- A map that shrinks everything it moves, and covers a finite set from within
that set, moves nothing in it. -/
theorem fixed_of_covering_of_shrinking {Value : Type} {values : List Value}
    {move : Value → Value} {size : Value → Nat}
    (shrinks : ∀ value, move value ≠ value → size (move value) < size value)
    (covers : ∀ value ∈ values, ∃ source ∈ values, move source = value) :
    ∀ value ∈ values, move value = value := by
  classical
  by_contra moved
  push Not at moved
  obtain ⟨value, member, changed⟩ := moved
  -- A longest moved value would have to come from a still longer moved one.
  obtain ⟨longest, inside, maximal⟩ :=
    (values.toFinset.filter fun value => move value ≠ value).exists_max_image size
      ⟨value, by simp [member, changed]⟩
  simp only [Finset.mem_filter, List.mem_toFinset] at inside maximal
  obtain ⟨source, sourceMember, moves⟩ := covers longest inside.1
  have sourceMoved : move source ≠ source := by
    intro fixed
    rw [moves] at fixed
    exact inside.2 (fixed ▸ moves)
  have longer := shrinks source sourceMoved
  have bound := maximal source ⟨sourceMember, sourceMoved⟩
  rw [moves] at longer
  omega

end Foundation
