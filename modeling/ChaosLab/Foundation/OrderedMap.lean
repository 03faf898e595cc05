import Mathlib

/-! Ordered maps rebuilt from a list of entries. The iteration order of a map
is the order of its keys, and inserting its entries again gives it back. -/

set_option autoImplicit false

namespace Foundation

open Std

variable {Key Value : Type}

/-- Where no two values have the same key, a search by key finds the one value that has it. -/
theorem find?_key_of_mem {Entry : Type} [DecidableEq Key] {key : Entry → Key} {entries : List Entry}
    (distinct : (entries.map key).Nodup) {entry : Entry} (member : entry ∈ entries) :
    entries.find? (fun other => key other = key entry) = some entry := by
  have some : (entries.find? fun other => key other = key entry).isSome := by
    rw [List.find?_isSome]
    exact ⟨entry, member, decide_eq_true rfl⟩
  obtain ⟨found, first⟩ := Option.isSome_iff_exists.mp some
  have same : key found = key entry := by simpa using List.find?_some first
  rw [first, List.inj_on_of_nodup_map distinct (List.mem_of_find?_eq_some first) member same]

variable [Ord Key] [TransOrd Key]

/-- Inserts the entries one after the other; a later entry of a key wins. -/
def insertAll (map : ExtTreeMap Key Value) (entries : List (Key × Value)) :
    ExtTreeMap Key Value :=
  entries.foldl (fun built entry => built.insert entry.1 entry.2) map

theorem insertAll_cons (map : ExtTreeMap Key Value) (entry : Key × Value)
    (entries : List (Key × Value)) :
    insertAll map (entry :: entries) = insertAll (map.insert entry.1 entry.2) entries := rfl

variable [LawfulEqOrd Key]

theorem getElem?_insert_ite (map : ExtTreeMap Key Value) (key other : Key) (value : Value)
    [Decidable (key = other)] :
    (map.insert key value)[other]? = if key = other then some value else map[other]? := by
  rw [ExtTreeMap.getElem?_insert]
  simp only [Std.compare_eq_iff_eq]

theorem getElem?_erase_ite (map : ExtTreeMap Key Value) (key other : Key)
    [Decidable (key = other)] :
    (map.erase key)[other]? = if key = other then none else map[other]? := by
  rw [ExtTreeMap.getElem?_erase]
  simp only [Std.compare_eq_iff_eq]

theorem insert_eq_self {map : ExtTreeMap Key Value} {key : Key} {value : Value}
    (found : map[key]? = some value) : map.insert key value = map := by
  classical
  refine ExtTreeMap.ext_getElem? fun other => ?_
  rw [getElem?_insert_ite]
  split
  · rename_i same
    rw [← same, found]
  · rfl

theorem getElem?_insertAll_of_notMem {map : ExtTreeMap Key Value}
    {entries : List (Key × Value)} {key : Key} (absent : key ∉ entries.map Prod.fst) :
    (insertAll map entries)[key]? = map[key]? := by
  classical
  induction entries generalizing map with
  | nil => rfl
  | cons entry entries ih =>
      simp only [List.map_cons, List.mem_cons, not_or] at absent
      rw [insertAll_cons, ih absent.2, getElem?_insert_ite, if_neg (Ne.symm absent.1)]

theorem getElem?_insertAll_of_mem {map : ExtTreeMap Key Value} {entries : List (Key × Value)}
    (distinct : (entries.map Prod.fst).Nodup) {key : Key} {value : Value}
    (member : (key, value) ∈ entries) : (insertAll map entries)[key]? = some value := by
  induction entries generalizing map with
  | nil => cases member
  | cons entry entries ih =>
      rw [List.map_cons, List.nodup_cons] at distinct
      rcases List.mem_cons.mp member with rfl | member
      · rw [insertAll_cons, getElem?_insertAll_of_notMem distinct.1]
        exact ExtTreeMap.getElem?_insert_self
      · exact ih distinct.2 member

theorem mem_of_getElem?_insertAll {map : ExtTreeMap Key Value} {entries : List (Key × Value)}
    {key : Key} {value : Value} (found : (insertAll map entries)[key]? = some value) :
    (key, value) ∈ entries ∨ map[key]? = some value := by
  classical
  induction entries generalizing map with
  | nil => exact .inr found
  | cons entry entries ih =>
      rw [insertAll_cons] at found
      rcases ih found with member | found
      · exact .inl (.tail _ member)
      · rw [getElem?_insert_ite] at found
        split at found
        · rename_i same
          exact .inl (by simp [← same, ← Option.some.inj found])
        · exact .inr found

theorem nodup_keys_toList (map : ExtTreeMap Key Value) : (map.toList.map Prod.fst).Nodup := by
  rw [List.Nodup, List.pairwise_map]
  refine ExtTreeMap.distinct_keys_toList.imp fun {first second} different same => ?_
  exact different (Std.compare_eq_iff_eq.mpr same)

theorem insertAll_toList (map : ExtTreeMap Key Value) : insertAll ∅ map.toList = map := by
  refine ExtTreeMap.ext_getElem? fun key => ?_
  cases found : map[key]? with
  | some value =>
      exact getElem?_insertAll_of_mem (nodup_keys_toList map)
        (ExtTreeMap.mem_toList_iff_getElem?_eq_some.mpr found)
  | none =>
      rw [Option.eq_none_iff_forall_ne_some]
      intro value rebuilt
      rcases mem_of_getElem?_insertAll rebuilt with member | inEmpty
      · rw [ExtTreeMap.mem_toList_iff_getElem?_eq_some, found] at member
        cases member
      · simp at inEmpty

/-- A list in the order of its keys is the iteration of the map built from it. -/
theorem toList_insertAll {entries : List (Key × Value)}
    (ordered : entries.Pairwise fun first second => compare first.1 second.1 = .lt) :
    (insertAll ∅ entries).toList = entries := by
  have distinct : (entries.map Prod.fst).Nodup := by
    rw [List.Nodup, List.pairwise_map]
    refine ordered.imp fun {first second} less same => ?_
    rw [Std.compare_eq_iff_eq.mpr same] at less
    cases less
  have members (entry : Key × Value) :
      entry ∈ (insertAll ∅ entries).toList ↔ entry ∈ entries := by
    rw [ExtTreeMap.mem_toList_iff_getElem?_eq_some]
    constructor
    · intro found
      rcases mem_of_getElem?_insertAll found with member | inEmpty
      · exact member
      · simp at inEmpty
    · exact getElem?_insertAll_of_mem distinct
  have permuted : (insertAll ∅ entries).toList.Perm entries :=
    (List.perm_ext_iff_of_nodup (nodup_keys_toList _).of_map distinct.of_map).mpr members
  refine permuted.eq_of_pairwise (fun first second _ _ less greater => ?_)
    ExtTreeMap.ordered_keys_toList ordered
  rw [OrientedCmp.gt_of_lt greater] at less
  cases less

end Foundation
