import Mathlib

/-! Command lines in which blanks separate arguments, a pair of quotes takes
blanks into an argument, and the slashes before a quote tell whether it belongs
to the argument itself. -/

set_option autoImplicit false

namespace Foundation

/-- The symbols that the rules single out. -/
structure QuoteRules (Symbol : Type) where
  slash : Symbol
  quote : Symbol
  blank : Symbol → Bool
  quote_ne_slash : quote ≠ slash
  blank_slash : blank slash = false
  blank_quote : blank quote = false

/-- The argument being read, once more of it is known. -/
def extend {Symbol : Type} (current : Option (List Symbol)) (text : List Symbol) :
    Option (List Symbol) :=
  if text = [] then current else some (current.getD [] ++ text)

@[simp] theorem extend_nil {Symbol : Type} (current : Option (List Symbol)) :
    extend current [] = current := rfl

theorem extend_of_ne_nil {Symbol : Type} (current : Option (List Symbol)) {text : List Symbol}
    (nonempty : text ≠ []) : extend current text = some (current.getD [] ++ text) :=
  if_neg nonempty

@[simp] theorem extend_some {Symbol : Type} (begun text : List Symbol) :
    extend (some begun) text = some (begun ++ text) := by
  unfold extend
  split_ifs with none
  · rw [none, List.append_nil]
  · rfl

@[simp] theorem getD_extend {Symbol : Type} (current : Option (List Symbol)) (text : List Symbol) :
    (extend current text).getD [] = current.getD [] ++ text := by
  unfold extend
  split_ifs with none
  · rw [none, List.append_nil]
  · rfl

namespace QuoteRules

section Slashes

variable {Symbol : Type} (rules : QuoteRules Symbol)

def slashes (count : Nat) : List Symbol := List.replicate count rules.slash

@[simp] theorem slashes_zero : rules.slashes 0 = [] := rfl

theorem slashes_succ_append (count : Nat) (text : List Symbol) :
    rules.slashes (count + 1) ++ text = rules.slashes count ++ rules.slash :: text := by
  rw [slashes, List.replicate_succ', List.append_assoc]
  rfl

theorem slash_quote_infix_cons_iff {rules : QuoteRules Symbol} {symbol : Symbol} {argument : List Symbol} :
    [rules.slash, rules.quote] <:+: symbol :: argument ↔
      symbol = rules.slash ∧ argument.head? = some rules.quote ∨
        [rules.slash, rules.quote] <:+: argument := by
  rw [List.infix_cons_iff, List.cons_prefix_cons]
  cases argument with
  | nil => simp
  | cons next argument => simp [eq_comm]

theorem slash_suffix_cons_iff {rules : QuoteRules Symbol} {symbol : Symbol} {argument : List Symbol} :
    [rules.slash] <:+ symbol :: argument ↔
      symbol = rules.slash ∧ argument = [] ∨ [rules.slash] <:+ argument := by
  rw [List.suffix_cons_iff]
  simp [eq_comm]

end Slashes

variable {Symbol : Type} [DecidableEq Symbol] (rules : QuoteRules Symbol)

/-- The arguments of a text, from inside it: `pending` slashes stand before it, and
`current` is the argument that has begun. -/
def parseFrom : Bool → Nat → Option (List Symbol) → List Symbol → List (List Symbol)
  | _, pending, current, [] => (extend current (rules.slashes pending)).toList
  | quoted, pending, current, symbol :: rest =>
      if symbol = rules.slash then parseFrom quoted (pending + 1) current rest
      else if symbol = rules.quote then
        let text := current.getD [] ++ rules.slashes (pending / 2)
        if pending % 2 = 0 then parseFrom (!quoted) 0 (some text) rest
        else parseFrom quoted 0 (some (text ++ [rules.quote])) rest
      else if rules.blank symbol && !quoted then
        (extend current (rules.slashes pending)).toList ++ parseFrom false 0 none rest
      else parseFrom quoted 0 (some ((extend current (rules.slashes pending)).getD [] ++ [symbol]))
        rest

/-- `2k` slashes before a quote are `k` slashes and a quote that opens or closes,
`2k + 1` are `k` slashes and a quote of the argument, and all other slashes are
themselves. Blanks outside of quotes separate. -/
def parse (text : List Symbol) : List (List Symbol) := rules.parseFrom false 0 none text

section Steps

variable (quoted : Bool) (pending : Nat) (current : Option (List Symbol)) (rest : List Symbol)

@[simp] theorem parseFrom_slash :
    rules.parseFrom quoted pending current (rules.slash :: rest) =
      rules.parseFrom quoted (pending + 1) current rest := by
  simp [parseFrom]

theorem parseFrom_quote :
    rules.parseFrom quoted 0 current (rules.quote :: rest) =
      rules.parseFrom (!quoted) 0 (some (current.getD [])) rest := by
  simp [parseFrom, rules.quote_ne_slash]

/-- A quote with one slash before it belongs to the argument. -/
theorem parseFrom_slash_quote :
    rules.parseFrom quoted 0 current (rules.slash :: rules.quote :: rest) =
      rules.parseFrom quoted 0 (some (current.getD [] ++ [rules.quote])) rest := by
  simp [parseFrom, rules.quote_ne_slash]

theorem parseFrom_literal {symbol : Symbol} (noSlash : symbol ≠ rules.slash)
    (noQuote : symbol ≠ rules.quote) (kept : (rules.blank symbol && !quoted) = false) :
    rules.parseFrom quoted pending current (symbol :: rest) =
      rules.parseFrom quoted 0 (some (current.getD [] ++ rules.slashes pending ++ [symbol])) rest := by
  rw [parseFrom, if_neg noSlash, if_neg noQuote, kept, getD_extend]
  rfl

end Steps

section Separation

/-- What may follow an argument. -/
def Separated (rest : List Symbol) : Prop :=
  ∀ symbol ∈ rest.head?, rules.blank symbol = true

variable {rules} {rest : List Symbol}

theorem Separated.parseFrom (separated : rules.Separated rest) (pending : Nat)
    (current : Option (List Symbol)) :
    rules.parseFrom false pending current rest =
      (extend current (rules.slashes pending)).toList ++ rules.parse rest := by
  cases rest with
  | nil => simp [parse, QuoteRules.parseFrom]
  | cons symbol rest =>
      have blank : rules.blank symbol = true := separated symbol rfl
      have noSlash : symbol ≠ rules.slash := by
        rintro rfl
        simp [rules.blank_slash] at blank
      have noQuote : symbol ≠ rules.quote := by
        rintro rfl
        simp [rules.blank_quote] at blank
      simp [parse, QuoteRules.parseFrom, noSlash, noQuote, blank]

/-- Text without quotes and blanks. -/
def Plain (rules : QuoteRules Symbol) (argument : List Symbol) : Prop :=
  ∀ symbol ∈ argument, symbol ≠ rules.quote ∧ rules.blank symbol = false

theorem Plain.parseFrom {argument : List Symbol} (plain : rules.Plain argument)
    (separated : rules.Separated rest) (pending : Nat) (current : Option (List Symbol)) :
    rules.parseFrom false pending current (argument ++ rest) =
      (extend current (rules.slashes pending ++ argument)).toList ++ rules.parse rest := by
  induction argument generalizing pending current with
  | nil =>
      rw [List.append_nil]
      exact separated.parseFrom pending current
  | cons symbol argument ih =>
      obtain ⟨noQuote, noBlank⟩ := plain symbol (.head _)
      have others := ih fun other member => plain other (.tail _ member)
      rw [List.cons_append]
      by_cases slash : symbol = rules.slash
      · rw [slash, parseFrom_slash, others, slashes_succ_append]
      · rw [parseFrom_literal _ _ _ _ _ slash noQuote (by simp [noBlank]), others, slashes_zero,
          List.nil_append, extend_some, extend_of_ne_nil _ (by simp), List.append_assoc,
          List.append_assoc, List.singleton_append]

theorem Plain.parse {argument : List Symbol} (plain : rules.Plain argument)
    (nonempty : argument ≠ []) (separated : rules.Separated rest) :
    rules.parse (argument ++ rest) = argument :: rules.parse rest := by
  rw [QuoteRules.parse, plain.parseFrom separated, slashes_zero, List.nil_append,
    extend_of_ne_nil none nonempty]
  rfl

end Separation

section Enclosing

/-- A writer that puts a slash before each quote of an argument, and nothing
else. -/
def escape (argument : List Symbol) : List Symbol :=
  argument.flatMap fun symbol =>
    if symbol = rules.quote then [rules.slash, rules.quote] else [symbol]

def enclose (argument : List Symbol) : List Symbol :=
  rules.quote :: rules.escape argument ++ [rules.quote]

/-- The slashes that stand before a quote of the argument or before the one that
closes it, `pending` of them before the argument. -/
def misplaced : Nat → List Symbol → Nat
  | pending, [] => pending
  | pending, symbol :: argument =>
      if symbol = rules.slash then misplaced (pending + 1) argument
      else if symbol = rules.quote then pending + misplaced 0 argument
      else misplaced 0 argument

variable {rules}

theorem escape_quote (argument : List Symbol) :
    rules.escape (rules.quote :: argument) =
      rules.slash :: rules.quote :: rules.escape argument := by
  simp [escape]

theorem escape_cons {symbol : Symbol} (noQuote : symbol ≠ rules.quote) (argument : List Symbol) :
    rules.escape (symbol :: argument) = symbol :: rules.escape argument := by
  simp [escape, noQuote]

/-- Without misplaced slashes the quotes of the argument are read as they were,
and the one after it closes it. -/
theorem parseFrom_escape {argument : List Symbol} {pending : Nat}
    (clean : rules.misplaced pending argument = 0) (begun rest : List Symbol) :
    rules.parseFrom true pending (some begun) (rules.escape argument ++ rules.quote :: rest) =
      rules.parseFrom false 0 (some (begun ++ rules.slashes pending ++ argument)) rest := by
  induction argument generalizing pending begun with
  | nil =>
      have none : pending = 0 := clean
      subst none
      simp [escape, parseFrom_quote]
  | cons symbol argument ih =>
      unfold misplaced at clean
      by_cases slash : symbol = rules.slash
      · subst slash
        rw [if_pos rfl] at clean
        rw [escape_cons rules.quote_ne_slash.symm, List.cons_append, parseFrom_slash, ih clean,
          List.append_assoc, slashes_succ_append, ← List.append_assoc]
      · rw [if_neg slash] at clean
        by_cases quote : symbol = rules.quote
        · subst quote
          rw [if_pos rfl] at clean
          obtain ⟨rfl, others⟩ := Nat.add_eq_zero_iff.mp clean
          rw [escape_quote, List.cons_append, List.cons_append, parseFrom_slash_quote, ih others]
          simp
        · rw [if_neg quote] at clean
          rw [escape_cons quote, List.cons_append, parseFrom_literal _ _ _ _ _ slash quote (by simp),
            ih clean]
          simp

theorem parse_enclose {argument rest : List Symbol} (clean : rules.misplaced 0 argument = 0)
    (separated : rules.Separated rest) :
    rules.parse (rules.enclose argument ++ rest) = argument :: rules.parse rest := by
  rw [parse, enclose, List.cons_append, List.cons_append, List.append_assoc, parseFrom_quote,
    List.singleton_append, Bool.not_false, Option.getD_none, parseFrom_escape clean,
    separated.parseFrom]
  simp

/-- No slash stands directly before a quote, and none at the end. -/
theorem misplaced_eq_zero_iff {argument : List Symbol} {pending : Nat} :
    rules.misplaced pending argument = 0 ↔
      (0 < pending → ∃ symbol ∈ argument.head?, symbol ≠ rules.quote) ∧
        ¬ [rules.slash, rules.quote] <:+: argument ∧ ¬ [rules.slash] <:+ argument := by
  induction argument generalizing pending with
  | nil => simp [misplaced]
  | cons symbol argument ih =>
      rw [slash_quote_infix_cons_iff, slash_suffix_cons_iff]
      unfold misplaced
      by_cases slash : symbol = rules.slash
      · subst slash
        rw [if_pos rfl, ih]
        cases argument with
        | nil => simp
        | cons next argument => simp [rules.quote_ne_slash.symm, and_assoc]
      · rw [if_neg slash]
        by_cases quote : symbol = rules.quote
        · simp [quote, rules.quote_ne_slash, Nat.add_eq_zero_iff, ih]
        · simp [slash, quote, ih]

end Enclosing

section Weight

/-- A slash of an argument weighs as much as two quotes. -/
def weight (argument : List Symbol) : Nat :=
  2 * argument.count rules.slash + argument.count rules.quote

/-- What the arguments of a text weigh together: slashes weigh half before a quote. -/
def textWeight : Nat → List Symbol → Nat
  | pending, [] => 2 * pending
  | pending, symbol :: rest =>
      if symbol = rules.slash then textWeight (pending + 1) rest
      else if symbol = rules.quote then pending + textWeight 0 rest
      else 2 * pending + textWeight 0 rest

variable {rules}

@[simp] theorem weight_nil : rules.weight [] = 0 := rfl

theorem weight_slash : rules.weight [rules.slash] = 2 := by
  simp [weight, rules.quote_ne_slash.symm]

theorem weight_quote : rules.weight [rules.quote] = 1 := by
  simp [weight, rules.quote_ne_slash]

theorem weight_other {symbol : Symbol} (noSlash : symbol ≠ rules.slash)
    (noQuote : symbol ≠ rules.quote) : rules.weight [symbol] = 0 := by
  simp [weight, noSlash, noQuote]

theorem weight_append (first second : List Symbol) :
    rules.weight (first ++ second) = rules.weight first + rules.weight second := by
  simp only [weight, List.count_append]
  omega

@[simp] theorem weight_slashes (count : Nat) : rules.weight (rules.slashes count) = 2 * count := by
  simp [weight, slashes, List.count_replicate, rules.quote_ne_slash.symm]

theorem weight_extend (current : Option (List Symbol)) (text : List Symbol) :
    ((extend current text).toList.map rules.weight).sum =
      rules.weight (current.getD []) + rules.weight text := by
  cases current with
  | none =>
      by_cases none : text = []
      · simp [none]
      · simp [extend, none]
  | some begun => simp [weight_append]

/-- Reading the text takes off half of each run of slashes that stands before a
quote, and nothing else. -/
theorem weight_parseFrom (quoted : Bool) (pending : Nat) (current : Option (List Symbol))
    (text : List Symbol) :
    ((rules.parseFrom quoted pending current text).map rules.weight).sum =
      rules.weight (current.getD []) + rules.textWeight pending text := by
  induction text generalizing quoted pending current with
  | nil => simp [parseFrom, textWeight, weight_extend]
  | cons symbol text ih =>
      unfold parseFrom textWeight
      by_cases slash : symbol = rules.slash
      · rw [if_pos slash, if_pos slash, ih]
      · rw [if_neg slash, if_neg slash]
        by_cases quote : symbol = rules.quote
        · rw [if_pos quote, if_pos quote]
          by_cases even : pending % 2 = 0
          · simp only [even, if_true, ih, Option.getD_some, weight_append, weight_slashes]
            omega
          · simp only [even, if_false, ih, Option.getD_some, weight_append, weight_slashes,
              weight_quote]
            omega
        · rw [if_neg quote, if_neg quote]
          split_ifs
          · rw [List.map_append, List.sum_append, ih, weight_extend, weight_slashes,
              Option.getD_none, weight_nil]
            omega
          · rw [ih, Option.getD_some, getD_extend, weight_append, weight_append, weight_slashes,
              weight_other slash quote]
            omega

theorem textWeight_plain {argument rest : List Symbol} (plain : rules.Plain argument)
    (separated : rules.Separated rest) :
    rules.textWeight 0 (argument ++ rest) = rules.weight argument + rules.textWeight 0 rest := by
  have read := plain.parseFrom separated 0 none
  have weights := congrArg (fun arguments => (arguments.map rules.weight).sum) read
  simp only [weight_parseFrom, List.map_append, List.sum_append, weight_extend, parse] at weights
  simpa using weights

theorem textWeight_escape (argument rest : List Symbol) (pending : Nat) :
    rules.textWeight pending (rules.escape argument ++ rules.quote :: rest) +
        rules.misplaced pending argument =
      2 * pending + rules.weight argument + rules.textWeight 0 rest := by
  induction argument generalizing pending with
  | nil =>
      rw [escape, List.flatMap_nil, List.nil_append, textWeight, if_neg rules.quote_ne_slash,
        if_pos rfl, misplaced, weight_nil]
      omega
  | cons symbol argument ih =>
      rw [← List.singleton_append, weight_append, List.singleton_append]
      unfold misplaced
      by_cases slash : symbol = rules.slash
      · subst slash
        have inside := ih (pending + 1)
        rw [escape_cons rules.quote_ne_slash.symm, List.cons_append, textWeight, if_pos rfl,
          if_pos rfl, weight_slash]
        omega
      · have inside := ih 0
        rw [if_neg slash]
        by_cases quote : symbol = rules.quote
        · subst quote
          rw [escape_quote, List.cons_append, List.cons_append, textWeight, if_pos rfl, textWeight,
            if_neg slash, if_pos rfl, if_pos rfl, weight_quote]
          omega
        · rw [escape_cons quote, List.cons_append, textWeight, if_neg slash, if_neg quote,
            if_neg quote, weight_other slash quote]
          omega

/-- An enclosed argument loses weight exactly when slashes are misplaced. -/
theorem textWeight_enclose (argument rest : List Symbol) :
    rules.textWeight 0 (rules.enclose argument ++ rest) + rules.misplaced 0 argument =
      rules.weight argument + rules.textWeight 0 rest := by
  have inside : rules.textWeight 0 _ + _ = _ := textWeight_escape argument rest 0
  simpa [enclose, textWeight, rules.quote_ne_slash] using inside

end Weight

end QuoteRules

end Foundation
