import ChaosLab.Authority
import ChaosLab.TextProperties
import ChaosLab.Foundation.Generations

/-! The text form of an authority envelope is exact, and an envelope that was
captured and passed stays detectably stale. -/

set_option autoImplicit false

namespace ChaosLab

open Foundation

namespace AuthorityEnvelope

section TextForm

def values (authority : AuthorityEnvelope) : List UInt64 :=
  [authority.epoch.value, authority.worker.value, authority.boot.value, authority.attempt.value,
    authority.attemptGen.value, authority.dispatch.value, authority.targetGen.value]

@[simp] theorem ofValues_values (authority : AuthorityEnvelope) :
    ofValues authority.values = authority := rfl

theorem values_ofValues {values : List UInt64} (seven : values.length = 7) :
    (ofValues values).values = values := by
  match values, seven with
  | [_, _, _, _, _, _, _], _ => rfl

/-- The field `key=digits`. -/
def field (key digits : Bytes) : Bytes := key ++ Byte.equals :: digits

theorem toText_eq (authority : AuthorityEnvelope) :
    authority.toText = [Byte.semicolon].intercalate
      (List.zipWith field keys (authority.values.map toHex)) := by
  simp [toText, pair, field, keys, values, List.intercalate]

theorem parseField_eq_ok_iff {key part : Bytes} (plain : Byte.equals ∉ key) {value : UInt64} :
    parseField key part = .ok value ↔
      ∃ digits, part = field key digits ∧ fromHex digits = some value := by
  unfold parseField
  constructor
  · intro accepted
    cases cut : cutAt Byte.equals part with
    | none => simp [cut] at accepted
    | some pieces =>
        obtain ⟨name, digits⟩ := pieces
        simp only [cut] at accepted
        by_cases same : name = key
        · simp only [same, ne_eq, not_true_eq_false, ↓reduceIte] at accepted
          cases read : fromHex digits with
          | none => simp [read] at accepted
          | some found =>
              simp only [read, Except.ok.injEq] at accepted
              rw [← same, ← accepted]
              exact ⟨digits, (cutAt_eq_some_iff.mp cut).2, read⟩
        · simp [same] at accepted
  · rintro ⟨digits, rfl, read⟩
    simp [field, cutAt_append plain, read]

theorem parseFields_cons_eq_ok_iff {key part : Bytes} {pairs : List (Bytes × Bytes)}
    {found : List UInt64} :
    parseFields ((key, part) :: pairs) = .ok found ↔
      ∃ value values, parseField key part = .ok value ∧ parseFields pairs = .ok values ∧
        value :: values = found := by
  rw [parseFields]
  cases parseField key part with
  | error status => simp
  | ok value =>
      cases parseFields pairs with
      | error status => simp
      | ok values => simp

/-- The loop of `parse` accepts exactly the parts that are fields with the keys in order. -/
theorem parseFields_eq_ok_iff {names parts : List Bytes}
    (plain : ∀ name ∈ names, Byte.equals ∉ name) (aligned : parts.length = names.length)
    {found : List UInt64} :
    parseFields (names.zip parts) = .ok found ↔
      ∃ digits : List Bytes, digits.length = names.length ∧
        parts = List.zipWith field names digits ∧ (∀ each ∈ digits, HexText each) ∧
        found = digits.map fun each => UInt64.ofNat (hexValue each) := by
  induction names generalizing parts found with
  | nil =>
      cases List.length_eq_zero_iff.mp aligned
      constructor
      · intro accepted
        cases accepted
        exact ⟨[], rfl, rfl, by simp, rfl⟩
      · rintro ⟨digits, none, _, _, rfl⟩
        cases List.length_eq_zero_iff.mp none
        rfl
  | cons name names ih =>
      obtain ⟨part, parts, rfl⟩ := List.exists_cons_of_length_eq_add_one aligned
      obtain ⟨plainHere, plainLater⟩ := List.forall_mem_cons.mp plain
      have alignedLater : parts.length = names.length := by simpa using aligned
      rw [List.zip_cons_cons, parseFields_cons_eq_ok_iff]
      constructor
      · rintro ⟨value, values, first, later, rfl⟩
        obtain ⟨digits, whole, read⟩ := (parseField_eq_ok_iff plainHere).mp first
        obtain ⟨rest, count, wholes, hexes, rfl⟩ := (ih plainLater alignedLater).mp later
        obtain ⟨hex, rfl⟩ := fromHex_eq_some_iff.mp read
        refine ⟨digits :: rest, by simp [count], by simp [whole, ← wholes], ?_, rfl⟩
        simpa [hex] using hexes
      · rintro ⟨digits, count, wholes, hexes, rfl⟩
        obtain ⟨first, rest, rfl⟩ := List.exists_cons_of_length_eq_add_one count
        obtain ⟨rfl, rfl⟩ := List.cons.inj wholes
        rw [List.forall_mem_cons] at hexes
        refine ⟨_, _, (parseField_eq_ok_iff plainHere).mpr
          ⟨first, rfl, fromHex_eq_some_iff.mpr ⟨hexes.1, rfl⟩⟩, ?_, rfl⟩
        exact (ih plainLater alignedLater).mpr ⟨rest, by simpa using count, rfl, hexes.2, rfl⟩

/-- The seven fields of a text, with the digits of their values. -/
structure Writes (text : Bytes) (digits : List Bytes) : Prop where
  count : digits.length = keys.length
  fields : text = [Byte.semicolon].intercalate (List.zipWith field keys digits)
  hexadecimal : ∀ each ∈ digits, HexText each

theorem notMem_keys (name : Bytes) (member : name ∈ keys) :
    Byte.equals ∉ name ∧ Byte.semicolon ∉ name := by
  revert name
  decide

theorem notMem_field {name digits : Bytes} (plain : Byte.semicolon ∉ name)
    (hexadecimal : HexText digits) : Byte.semicolon ∉ field name digits := by
  have digit : Byte.semicolon ∉ digits := hexadecimal.notMem (by decide)
  have apart : Byte.semicolon ≠ Byte.equals := by decide
  simp [field, plain, digit, apart]

theorem notMem_of_mem_zipWith_field {names digits : List Bytes}
    (plain : ∀ name ∈ names, Byte.semicolon ∉ name) (hexadecimal : ∀ each ∈ digits, HexText each)
    {part : Bytes} (member : part ∈ List.zipWith field names digits) :
    Byte.semicolon ∉ part := by
  induction names generalizing digits with
  | nil => simp at member
  | cons name names ih =>
      cases digits with
      | nil => simp at member
      | cons first rest =>
          rw [List.zipWith_cons_cons, List.mem_cons] at member
          cases member with
          | inl here =>
              rw [here]
              exact notMem_field (plain name (.head _)) (hexadecimal first (.head _))
          | inr there =>
              exact ih (fun other inside => plain other (.tail _ inside))
                (fun other inside => hexadecimal other (.tail _ inside)) there

theorem Writes.split {text : Bytes} {digits : List Bytes} (writes : Writes text digits) :
    ChaosLab.split text Byte.semicolon = List.zipWith field keys digits := by
  refine split_eq_iff.mpr ⟨?_, ?_, writes.fields.symm⟩
  · have count := writes.count
    intro empty
    have length := congrArg List.length empty
    simp [count, keys] at length
  · intro part member
    exact notMem_of_mem_zipWith_field (fun name member => (notMem_keys name member).2)
      writes.hexadecimal member

theorem parse_of_writes {text : Bytes} {digits : List Bytes} (writes : Writes text digits) :
    parse text = ({}, ofValues (digits.map fun each => UInt64.ofNat (hexValue each))) := by
  have length : (List.zipWith field keys digits).length = keys.length := by
    simp [writes.count]
  have loop := (parseFields_eq_ok_iff (fun name member => (notMem_keys name member).1) length).mpr
    ⟨digits, writes.count, rfl, writes.hexadecimal, rfl⟩
  unfold parse
  rw [writes.split]
  simp only [length, loop]
  rfl

theorem values_of_writes {text : Bytes} {digits : List Bytes} (writes : Writes text digits) :
    (parse text).2.values.map UInt64.toNat = digits.map fun each => hexValue each % 2 ^ 64 := by
  have seven : (digits.map fun each => UInt64.ofNat (hexValue each)).length = 7 := by
    rw [List.length_map]
    exact writes.count
  rw [parse_of_writes writes, values_ofValues seven, List.map_map]
  rfl

theorem code_of_parseField {key part : Bytes} {status : Status}
    (rejected : parseField key part = .error status) : status.code = .invalidArgument := by
  unfold parseField at rejected
  cases cut : cutAt Byte.equals part with
  | none =>
      simp only [cut, Except.error.injEq] at rejected
      rw [← rejected, invalid]
  | some pieces =>
      simp only [cut] at rejected
      split at rejected
      · cases rejected
        rfl
      · cases read : fromHex pieces.2 with
        | none =>
            simp only [read, Except.error.injEq] at rejected
            rw [← rejected, invalid]
        | some value => simp [read] at rejected

theorem code_of_parseFields {pairs : List (Bytes × Bytes)} {status : Status}
    (rejected : parseFields pairs = .error status) : status.code = .invalidArgument := by
  induction pairs with
  | nil => cases rejected
  | cons pair pairs ih =>
      unfold parseFields at rejected
      cases first : parseField pair.1 pair.2 with
      | error stopped =>
          simp only [first, Except.error.injEq] at rejected
          rw [← rejected]
          exact code_of_parseField first
      | ok value =>
          cases later : parseFields pairs with
          | error stopped =>
              simp only [first, later, Except.error.injEq] at rejected
              exact ih (rejected ▸ later)
          | ok values => simp [first, later] at rejected

theorem writes_of_parse {text : Bytes} (accepted : (parse text).1.code = .ok) :
    ∃ digits, Writes text digits := by
  unfold parse at accepted
  by_cases seven : (ChaosLab.split text Byte.semicolon).length = keys.length
  · cases loop : parseFields (keys.zip (ChaosLab.split text Byte.semicolon)) with
    | error status =>
        have seven' : (ChaosLab.split text Byte.semicolon).length = 7 := seven
        simp [seven', loop, code_of_parseFields loop] at accepted
    | ok values =>
        obtain ⟨digits, count, parts, hexadecimal, _⟩ :=
          (parseFields_eq_ok_iff (fun name member => (notMem_keys name member).1) seven).mp loop
        obtain ⟨-, -, fields⟩ := split_eq_iff.mp parts
        exact ⟨digits, count, fields.symm, hexadecimal⟩
  · have other : (ChaosLab.split text Byte.semicolon).length ≠ 7 := seven
    simp [other, invalid] at accepted

theorem writes_toText (authority : AuthorityEnvelope) :
    Writes authority.toText (authority.values.map toHex) where
  count := rfl
  fields := toText_eq authority
  hexadecimal := by
    intro each member
    obtain ⟨value, _, rfl⟩ := List.mem_map.mp member
    exact hexText_toHex value

theorem parse_toText (authority : AuthorityEnvelope) :
    parse authority.toText = ({}, authority) := by
  rw [parse_of_writes (writes_toText authority), List.map_map]
  have same : (authority.values.map
      ((fun each => UInt64.ofNat (hexValue each)) ∘ toHex)) = authority.values := by
    refine (List.map_congr_left fun value _ => ?_).trans (List.map_id _)
    simp [hexValue_toHex]
  rw [same, ofValues_values]

/-- What `to_text` writes is read back, and `parse` accepts exactly the texts of
seven fields with the keys in order and hexadecimal values, reading each value
modulo `2 ^ 64`. -/
theorem textForm_exact :
    (∀ authority : AuthorityEnvelope, parse authority.toText = ({}, authority)) ∧
      ∀ text : Bytes,
        ((parse text).1.code = .ok ↔ ∃ digits, Writes text digits) ∧
          ∀ digits, Writes text digits →
            (parse text).2.values.map UInt64.toNat =
              digits.map fun each => hexValue each % 2 ^ 64 := by
  refine ⟨parse_toText, fun text => ⟨⟨writes_of_parse, ?_⟩, fun digits => values_of_writes⟩⟩
  rintro ⟨digits, writes⟩
  rw [parse_of_writes writes]

end TextForm

end AuthorityEnvelope

section Staleness

/-- A generation of the envelope, under the name that `stale_dimension` gives it. -/
def dimension (name : Bytes) (read : AuthorityEnvelope → UInt64) :
    Dimension AuthorityEnvelope Bytes Nat :=
  ⟨name, fun authority => (read authority).toNat⟩

/-- The generations that are compared, in order. The worker is not one of them. -/
def authorityDimensions : List (Dimension AuthorityEnvelope Bytes Nat) :=
  [dimension (ascii "epoch") fun authority => authority.epoch.value,
    dimension (ascii "boot") fun authority => authority.boot.value,
    dimension (ascii "attempt") fun authority => authority.attempt.value,
    dimension (ascii "attempt_gen") fun authority => authority.attemptGen.value,
    dimension (ascii "dispatch") fun authority => authority.dispatch.value,
    dimension (ascii "target_gen") fun authority => authority.targetGen.value]

theorem older_eq_true_iff (name : Bytes) (read : AuthorityEnvelope → UInt64)
    (current candidate : AuthorityEnvelope) :
    older (read current) (read candidate) = true ↔
      (dimension name read).Behind current candidate := by
  have absent : read candidate = 0 ↔ (read candidate).toNat = 0 := UInt64.toNat_inj.symm
  simp [older, dimension, Dimension.Behind, absent, UInt64.lt_iff_toNat_lt]

theorem firstBehind_cons (name : Bytes) (read : AuthorityEnvelope → UInt64)
    (rest : List (Dimension AuthorityEnvelope Bytes Nat))
    (current candidate : AuthorityEnvelope) :
    firstBehind (dimension name read :: rest) current candidate =
      if older (read current) (read candidate) then some (dimension name read)
      else firstBehind rest current candidate := by
  have same := older_eq_true_iff name read current candidate
  unfold firstBehind
  rw [List.find?_cons]
  by_cases behind : (dimension name read).Behind current candidate
  · simp [behind, same.mpr behind]
  · have recent : older (read current) (read candidate) = false := by
      simpa using fun found => behind (same.mp found)
    simp [behind, recent]

theorem authorityIsStale_eq (current candidate : AuthorityEnvelope) :
    authorityIsStale current candidate =
      (firstBehind authorityDimensions current candidate).isSome := by
  simp only [authorityDimensions, firstBehind_cons, apply_ite Option.isSome]
  rfl

theorem staleDimension_eq (current candidate : AuthorityEnvelope) :
    staleDimension current candidate =
      ((firstBehind authorityDimensions current candidate).map Dimension.name).getD [] := by
  simp only [authorityDimensions, firstBehind_cons, apply_ite (Option.map Dimension.name),
    apply_ite fun found : Option Bytes => found.getD []]
  rfl

theorem authorityIsStale_eq_true_iff (current candidate : AuthorityEnvelope) :
    authorityIsStale current candidate = true ↔ Stale authorityDimensions current candidate := by
  rw [authorityIsStale_eq]
  exact firstBehind_isSome_iff

theorem authorityMatches_eq_false_of_stale {current candidate : AuthorityEnvelope}
    (stale : authorityIsStale current candidate = true) :
    authorityMatches current candidate = false := by
  by_contra matched
  have same : current = candidate := by simpa [authorityMatches] using matched
  rw [same, authorityIsStale_eq_true_iff] at stale
  exact not_stale_self candidate stale

/-- In a run whose six generations never decrease, a stale candidate stays stale
and never matches, and an envelope captured from the run with all of them
present is stale once one of them has advanced, which `stale_dimension` names. -/
theorem captured_authority_stays_stale {run : List AuthorityEnvelope}
    (advancing : run.IsChain (Advances authorityDimensions)) {i j : Nat} (ordered : i ≤ j)
    {earlier later : AuthorityEnvelope} (atEarlier : run[i]? = some earlier)
    (atLater : run[j]? = some later) :
    (∀ candidate, authorityIsStale earlier candidate = true →
      authorityIsStale later candidate = true ∧ authorityMatches later candidate = false) ∧
    ((∀ each ∈ authorityDimensions, 1 ≤ each.read earlier) →
      (∃ each ∈ authorityDimensions, each.read earlier < each.read later) →
        authorityIsStale later earlier = true ∧
          (firstAdvanced authorityDimensions earlier later).map Dimension.name =
            some (staleDimension later earlier)) := by
  constructor
  · intro candidate stale
    have advanced := advances_of_chain advancing ordered atEarlier atLater
    rw [authorityIsStale_eq_true_iff] at stale
    have still := (authorityIsStale_eq_true_iff later candidate).mpr (stale.of_advances advanced)
    exact ⟨still, authorityMatches_eq_false_of_stale still⟩
  · intro present passed
    have complete : Complete authorityDimensions earlier := by
      intro each member
      exact Nat.one_le_iff_ne_zero.mp (present each member)
    have first := firstBehind_eq_firstAdvanced complete later
    have found : (firstAdvanced authorityDimensions earlier later).isSome := by
      simpa [firstAdvanced] using passed
    obtain ⟨each, named⟩ := Option.isSome_iff_exists.mp found
    rw [authorityIsStale_eq, staleDimension_eq, first, named]
    exact ⟨rfl, rfl⟩

theorem captured_authority_stays_stale_after_restart :
    authorityIsStale ⟨⟨2⟩, ⟨7⟩, ⟨3⟩, ⟨1⟩, ⟨1⟩, ⟨1⟩, ⟨1⟩⟩ ⟨⟨2⟩, ⟨7⟩, ⟨2⟩, ⟨1⟩, ⟨1⟩, ⟨1⟩, ⟨1⟩⟩ =
      true := by
  have advancing : List.IsChain (Advances authorityDimensions)
      [⟨⟨2⟩, ⟨7⟩, ⟨2⟩, ⟨1⟩, ⟨1⟩, ⟨1⟩, ⟨1⟩⟩, ⟨⟨2⟩, ⟨7⟩, ⟨3⟩, ⟨1⟩, ⟨1⟩, ⟨1⟩, ⟨1⟩⟩] := by
    rw [List.isChain_pair]
    unfold Advances
    decide
  exact ((captured_authority_stays_stale advancing (by decide : 0 ≤ 1) rfl rfl).2
    (by decide) (by decide)).1

end Staleness

section Adversary

/-- The kinds of `stale_combination` that set a generation back, and which one. -/
def staleKinds : List (Int32 × Dimension AuthorityEnvelope Bytes Nat) :=
  [(0, dimension (ascii "boot") fun authority => authority.boot.value),
    (1, dimension (ascii "attempt") fun authority => authority.attempt.value),
    (2, dimension (ascii "dispatch") fun authority => authority.dispatch.value),
    (3, dimension (ascii "target_gen") fun authority => authority.targetGen.value)]

/-- The two envelopes differ in the value that their text form gives this key,
and in no other of the seven. -/
def DiffersOnlyIn (key : Bytes) (current candidate : AuthorityEnvelope) : Prop :=
  ∀ entry ∈ AuthorityEnvelope.keys.zip (current.values.zip candidate.values),
    entry.2.1 ≠ entry.2.2 ↔ entry.1 = key

/-- Setting one generation back by one makes it stale unless the result is zero,
which reads as absent. -/
theorem behind_of_setBack_iff {name : Bytes} {read : AuthorityEnvelope → UInt64}
    {current candidate : AuthorityEnvelope} (setBack : read candidate = read current - 1) :
    (dimension name read).Behind current candidate ↔ 2 ≤ (dimension name read).read current := by
  have number : (read candidate).toNat = (2 ^ 64 - 1 + (read current).toNat) % 2 ^ 64 := by
    rw [setBack, UInt64.toNat_sub]
    rfl
  have bound := (read current).toNat_lt
  simp only [dimension, Dimension.Behind, bot_eq_zero, number]
  omega

theorem ne_sub_one (value : UInt64) : value ≠ value - 1 := by
  intro same
  have zero : (1 : UInt64) = 0 := by simpa using same.symm
  cases zero

theorem staleCombination_of_setBack {name : Bytes} {read : AuthorityEnvelope → UInt64}
    {current candidate : AuthorityEnvelope} (member : dimension name read ∈ authorityDimensions)
    (agree : ∀ other ∈ authorityDimensions, other ≠ dimension name read →
      other.read candidate = other.read current)
    (setBack : read candidate = read current - 1) (differs : DiffersOnlyIn name current candidate) :
    authorityIsStale current candidate = true ∧ staleDimension current candidate = name ∧
        DiffersOnlyIn name current candidate ↔
      2 ≤ (dimension name read).read current := by
  have first := firstBehind_of_agree member agree
  have enough : (dimension name read).Behind current candidate ↔ _ := behind_of_setBack_iff setBack
  rw [authorityIsStale_eq, staleDimension_eq, first]
  by_cases behind : (dimension name read).Behind current candidate
  · rw [if_pos behind]
    exact ⟨fun _ => enough.mp behind, fun _ => ⟨rfl, rfl, differs⟩⟩
  · rw [if_neg behind]
    constructor
    · intro stale
      cases stale.1
    · intro two
      exact absurd (enough.mpr two) behind

theorem differsOnlyIn_of_set {current candidate : AuthorityEnvelope} {i : Nat}
    {key : Bytes} {value : UInt64} (named : AuthorityEnvelope.keys[i]? = some key)
    (replaced : candidate.values = current.values.set i value)
    (differs : current.values[i]? ≠ some value) :
    DiffersOnlyIn key current candidate := by
  intro entry member
  obtain ⟨index, located⟩ := List.mem_iff_getElem?.mp member
  rw [List.getElem?_zip_eq_some, List.getElem?_zip_eq_some, replaced] at located
  obtain ⟨keyed, before, after⟩ := located
  have distinct : AuthorityEnvelope.keys.Nodup := by decide
  by_cases here : index = i
  · subst here
    rw [List.getElem?_set_self (List.getElem?_eq_some_iff.mp before).1] at after
    have same : entry.1 = key := Option.some.inj (keyed.symm.trans named)
    refine iff_of_true (fun equal => differs ?_) same
    rw [before, equal, after]
  · rw [List.getElem?_set_ne (Ne.symm here), before] at after
    refine iff_of_false (not_not.mpr (Option.some.inj after)) fun same => here ?_
    have bound := (List.getElem?_eq_some_iff.mp keyed).1
    exact (List.getElem?_inj bound distinct).mp (keyed.trans (same ▸ named.symm))

/-- A kind that sets a generation back gives a stale candidate, named after that
generation, exactly when the generation is past its first value. -/
theorem staleCombination_stale_iff (current : AuthorityEnvelope) :
    ∀ row ∈ staleKinds,
      (authorityIsStale current (staleCombination row.1 current) = true ∧
        staleDimension current (staleCombination row.1 current) = row.2.name ∧
        DiffersOnlyIn row.2.name current (staleCombination row.1 current) ↔
      2 ≤ row.2.read current) := by
  have changed (value : UInt64) : some value ≠ some (value - 1) := by simpa using ne_sub_one value
  intro row listed
  simp only [staleKinds, List.mem_cons, List.not_mem_nil, or_false] at listed
  rcases listed with rfl | rfl | rfl | rfl
  · apply staleCombination_of_setBack (List.mem_of_getElem? (i := 1) rfl) _ rfl
    · exact differsOnlyIn_of_set (i := 2) rfl rfl (changed _)
    · simp [authorityDimensions, staleCombination, dimension]
  · apply staleCombination_of_setBack (List.mem_of_getElem? (i := 2) rfl) _ rfl
    · exact differsOnlyIn_of_set (i := 3) rfl rfl (changed _)
    · simp [authorityDimensions, staleCombination, dimension]
  · apply staleCombination_of_setBack (List.mem_of_getElem? (i := 4) rfl) _ rfl
    · exact differsOnlyIn_of_set (i := 5) rfl rfl (changed _)
    · simp [authorityDimensions, staleCombination, dimension]
  · apply staleCombination_of_setBack (List.mem_of_getElem? (i := 5) rfl) _ rfl
    · exact differsOnlyIn_of_set (i := 6) rfl rfl (changed _)
    · simp [authorityDimensions, staleCombination, dimension]

theorem staleCombination_stale_iff_second_boot :
    authorityIsStale ⟨⟨1⟩, ⟨1⟩, ⟨2⟩, ⟨1⟩, ⟨1⟩, ⟨1⟩, ⟨1⟩⟩
      (staleCombination 0 ⟨⟨1⟩, ⟨1⟩, ⟨2⟩, ⟨1⟩, ⟨1⟩, ⟨1⟩, ⟨1⟩⟩) = true :=
  ((staleCombination_stale_iff ⟨⟨1⟩, ⟨1⟩, ⟨2⟩, ⟨1⟩, ⟨1⟩, ⟨1⟩, ⟨1⟩⟩ _ (.head _)).mpr (by decide)).1

/-- The first boot set back is zero, which says that the candidate has none. -/
theorem staleCombination_first_boot_not_stale :
    ¬ ∀ current : AuthorityEnvelope, 1 ≤ current.boot.value → 1 ≤ current.attempt.value →
      1 ≤ current.dispatch.value → 1 ≤ current.targetGen.value →
      ∀ row ∈ staleKinds,
        authorityIsStale current (staleCombination row.1 current) = true ∧
          staleDimension current (staleCombination row.1 current) = row.2.name ∧
          DiffersOnlyIn row.2.name current (staleCombination row.1 current) := by
  intro stale
  have first := (stale ⟨⟨1⟩, ⟨1⟩, ⟨1⟩, ⟨1⟩, ⟨1⟩, ⟨1⟩, ⟨1⟩⟩ (by decide) (by decide) (by decide)
    (by decide) _ (.head _)).1
  revert first
  decide

end Adversary

end ChaosLab
