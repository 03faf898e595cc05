import ChaosLab.Foundation.Quoting
import ChaosLab.Process

/-! Which arguments get through a command line. -/

set_option autoImplicit false

namespace ChaosLab

open Foundation

/-- The rules by which a command line is taken apart. -/
def argvRules : QuoteRules UInt8 where
  slash := Byte.backslash
  quote := Byte.doubleQuote
  blank c := c = Byte.space ∨ c = Byte.tab
  quote_ne_slash := by decide
  blank_slash := by decide
  blank_quote := by decide

/-- An argument that is not put in quotes, or that has no backslash directly before
a quote or at its end. -/
def Survives (a : Bytes) : Prop :=
  needsQuotes a = true →
    ¬ [Byte.backslash, Byte.doubleQuote] <:+: a ∧ ¬ [Byte.backslash] <:+ a

theorem plain_of_not_needsQuotes {a : Bytes} (unquoted : needsQuotes a = false) :
    argvRules.Plain a := by
  intro c member
  have other := List.any_eq_false.mp unquoted c member
  simp only [decide_eq_true_eq, not_or] at other
  exact ⟨other.2.2, by simp [argvRules, other.1, other.2.1]⟩

/-- The backslashes of an argument that are not read as they were meant. -/
def lost (a : Bytes) : Nat := if needsQuotes a then argvRules.misplaced 0 a else 0

theorem lost_eq_zero_iff {a : Bytes} : lost a = 0 ↔ Survives a := by
  unfold lost Survives
  cases needsQuotes a with
  | false => simp
  | true =>
      have clean : argvRules.misplaced 0 a = 0 ↔ _ := QuoteRules.misplaced_eq_zero_iff
      rw [if_pos rfl, clean]
      simp [argvRules]

/-- An argument is written between quotes, or as it is. -/
theorem quoteArg_cases (a : Bytes) :
    (quoteArg a = argvRules.enclose a ∧ lost a = argvRules.misplaced 0 a) ∨
      (quoteArg a = a ∧ a ≠ [] ∧ argvRules.Plain a ∧ lost a = 0) := by
  unfold quoteArg lost
  by_cases empty : a = []
  · subst empty
    exact .inl ⟨rfl, rfl⟩
  · cases quoted : needsQuotes a with
    | true => exact .inl ⟨by rw [if_neg empty, if_pos rfl]; rfl, if_pos rfl⟩
    | false =>
        have plain := plain_of_not_needsQuotes quoted
        exact .inr ⟨by rw [if_neg empty, if_neg Bool.false_ne_true], empty, plain, rfl⟩

section Arguments

variable {a rest : Bytes}

theorem parse_quoteArg (kept : lost a = 0) (separated : argvRules.Separated rest) :
    argvRules.parse (quoteArg a ++ rest) = a :: argvRules.parse rest := by
  cases quoteArg_cases a with
  | inl enclosed =>
      rw [enclosed.1]
      exact QuoteRules.parse_enclose (enclosed.2 ▸ kept) separated
  | inr written =>
      obtain ⟨same, nonempty, plain, _⟩ := written
      rw [same]
      exact plain.parse nonempty separated

theorem textWeight_quoteArg (separated : argvRules.Separated rest) :
    argvRules.textWeight 0 (quoteArg a ++ rest) + lost a =
      argvRules.weight a + argvRules.textWeight 0 rest := by
  cases quoteArg_cases a with
  | inl enclosed =>
      rw [enclosed.1, enclosed.2]
      exact QuoteRules.textWeight_enclose a rest
  | inr written =>
      obtain ⟨same, _, plain, whole⟩ := written
      rw [same, whole]
      exact QuoteRules.textWeight_plain plain separated

end Arguments

/-- A command line from its arguments on. -/
def argumentsText (args : List Bytes) : Bytes := args.flatMap fun a => Byte.space :: quoteArg a

theorem buildCommandLine_eq (exe : Bytes) (args : List Bytes) :
    buildCommandLine exe args = quoteArg exe ++ argumentsText args := by
  unfold buildCommandLine
  generalize quoteArg exe = cmd
  induction args generalizing cmd with
  | nil => simp [argumentsText]
  | cons a args ih =>
      rw [List.foldl_cons, ih]
      simp [argumentsText]

theorem separated_argumentsText (args : List Bytes) :
    argvRules.Separated (argumentsText args) := by
  cases args with
  | nil => simp [argumentsText, QuoteRules.Separated]
  | cons a args => simp [argumentsText, QuoteRules.Separated, argvRules]

theorem parse_space (rest : Bytes) :
    argvRules.parse (Byte.space :: rest) = argvRules.parse rest := rfl

theorem textWeight_space (rest : Bytes) :
    argvRules.textWeight 0 (Byte.space :: rest) = argvRules.textWeight 0 rest :=
  Nat.zero_add _

theorem parse_buildCommandLine {exe : Bytes} {args : List Bytes}
    (kept : ∀ a ∈ exe :: args, lost a = 0) :
    argvRules.parse (buildCommandLine exe args) = exe :: args := by
  rw [buildCommandLine_eq]
  induction args generalizing exe with
  | nil =>
      rw [parse_quoteArg (kept exe (.head _)) (separated_argumentsText [])]
      rfl
  | cons a args ih =>
      rw [parse_quoteArg (kept exe (.head _)) (separated_argumentsText _), argumentsText,
        List.flatMap_cons, List.cons_append, parse_space]
      exact congrArg _ (ih fun other member => kept other (.tail _ member))

/-- What the arguments that are read weigh less than the ones that were written. -/
theorem textWeight_buildCommandLine (exe : Bytes) (args : List Bytes) :
    argvRules.textWeight 0 (buildCommandLine exe args) + ((exe :: args).map lost).sum =
      ((exe :: args).map argvRules.weight).sum := by
  rw [buildCommandLine_eq]
  induction args generalizing exe with
  | nil =>
      have single := textWeight_quoteArg (a := exe) (separated_argumentsText [])
      simpa [argumentsText, QuoteRules.textWeight] using single
  | cons a args ih =>
      have first := textWeight_quoteArg (a := exe) (separated_argumentsText (a :: args))
      have others := ih a
      have next : argvRules.textWeight 0 (argumentsText (a :: args)) =
          argvRules.textWeight 0 (quoteArg a ++ argumentsText args) := textWeight_space _
      simp only [List.map_cons, List.sum_cons] at others ⊢
      omega

/-- A command line is taken apart into what it was built from exactly when each
part survives its quoting. -/
theorem parse_buildCommandLine_iff (exe : Bytes) (args : List Bytes) :
    argvRules.parse (buildCommandLine exe args) = exe :: args ↔
      ∀ a ∈ exe :: args, Survives a := by
  simp only [← lost_eq_zero_iff]
  constructor
  · intro read
    have weights := congrArg (fun arguments => (arguments.map argvRules.weight).sum) read
    simp only [QuoteRules.parse, QuoteRules.weight_parseFrom, Option.getD_none,
      QuoteRules.weight_nil, Nat.zero_add] at weights
    have written := textWeight_buildCommandLine exe args
    have none : ((exe :: args).map lost).sum = 0 := by omega
    intro a member
    exact List.sum_eq_zero_iff.mp none _ (List.mem_map_of_mem member)
  · exact parse_buildCommandLine

/-- The backslash at the end takes the closing quote for a quote of the argument. -/
theorem trailing_backslash_lost :
    argvRules.parse (buildCommandLine (ascii "worker") [ascii "a b" ++ [Byte.backslash]]) ≠
      [ascii "worker", ascii "a b" ++ [Byte.backslash]] := by
  decide

end ChaosLab
