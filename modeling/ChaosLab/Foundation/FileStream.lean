import Mathlib

/-! Streams over a file that is open for reading and writing. The file itself does
not fail. A stream fails when it is moved to a negative place or runs out while
it reads, and does nothing from then on until it is cleared. -/

set_option autoImplicit false

namespace Foundation

section Overwriting

variable {Symbol : Type} (fill : Symbol)

/-- Puts symbols in the place of others. Past the end the file is filled up first. -/
def overwrite (content : List Symbol) (position : Nat) (symbols : List Symbol) : List Symbol :=
  if symbols = [] then content
  else content.take position ++ List.replicate (position - content.length) fill ++ symbols ++
    content.drop (position + symbols.length)

variable {content symbols : List Symbol} {position : Nat}

theorem overwrite_eq (inside : position ≤ content.length) :
    overwrite fill content position symbols =
      content.take position ++ symbols ++ content.drop (position + symbols.length) := by
  unfold overwrite
  split_ifs with none
  · simp [none]
  · rw [Nat.sub_eq_zero_of_le inside, List.replicate_zero, List.append_nil]

theorem getElem?_overwrite (inside : position ≤ content.length) (i : Nat) :
    (overwrite fill content position symbols)[i]? =
      if position ≤ i ∧ i < position + symbols.length then symbols[i - position]?
      else content[i]? := by
  have front : (content.take position).length = position := List.length_take_of_le inside
  rw [overwrite_eq fill inside, List.append_assoc]
  by_cases before : i < position
  · rw [List.getElem?_append_left (by omega), List.getElem?_take_of_lt before,
      if_neg (by omega)]
  · rw [List.getElem?_append_right (by omega), front]
    by_cases within : i < position + symbols.length
    · rw [List.getElem?_append_left (by omega), if_pos (by omega)]
    · rw [List.getElem?_append_right (by omega), List.getElem?_drop, if_neg (by omega)]
      congr 1
      omega

theorem length_overwrite (inside : position ≤ content.length) :
    (overwrite fill content position symbols).length =
      max content.length (position + symbols.length) := by
  rw [overwrite_eq fill inside, List.length_append, List.length_append,
    List.length_take_of_le inside, List.length_drop]
  omega

/-- One symbol after the other is all of them at once. -/
theorem overwrite_cons (inside : position ≤ content.length) (symbol : Symbol) :
    overwrite fill (overwrite fill content position [symbol]) (position + 1) symbols =
      overwrite fill content position (symbol :: symbols) := by
  have grown : position + 1 ≤ (overwrite fill content position [symbol]).length := by
    rw [length_overwrite fill inside, List.length_singleton]
    omega
  apply List.ext_getElem?
  intro i
  rw [getElem?_overwrite fill grown, getElem?_overwrite fill inside, getElem?_overwrite fill inside,
    List.length_singleton, List.length_cons]
  by_cases first : i = position
  · subst first
    rw [if_neg (by omega), if_pos (by omega), if_pos (by omega), Nat.sub_self]
    rfl
  · by_cases later : position + 1 ≤ i ∧ i < position + 1 + symbols.length
    · obtain ⟨k, rfl⟩ := Nat.exists_eq_add_of_le later.1
      rw [if_pos later, if_pos (by omega)]
      have shift : position + 1 + k - position = k + 1 := by omega
      rw [shift, Nat.add_sub_cancel_left, List.getElem?_cons_succ]
    · rw [if_neg later, if_neg (by omega), if_neg (by omega)]

end Overwriting

/-- A stream, its file, and the place in it. -/
structure FileStream (Symbol : Type) where
  content : List Symbol
  position : Nat := 0
  good : Bool := true

namespace FileStream

variable {Symbol : Type}

def clear (stream : FileStream Symbol) : FileStream Symbol := { stream with good := true }

def seek (stream : FileStream Symbol) (offset : Int) : FileStream Symbol :=
  if stream.good then
    if offset < 0 then { stream with good := false } else { stream with position := offset.toNat }
  else stream

def seekEnd (stream : FileStream Symbol) : FileStream Symbol :=
  if stream.good then { stream with position := stream.content.length } else stream

/-- What was got, and the stream after it. -/
def read (stream : FileStream Symbol) (count : Nat) : List Symbol × FileStream Symbol :=
  if stream.good then
    let got := (stream.content.drop stream.position).take count
    (got, { stream with position := stream.position + got.length, good := got.length = count })
  else ([], stream)

def write (fill : Symbol) (stream : FileStream Symbol) (symbols : List Symbol) :
    FileStream Symbol :=
  if stream.good then
    { stream with
      content := overwrite fill stream.content stream.position symbols
      position := stream.position + symbols.length }
  else stream

section Calls

variable {stream : FileStream Symbol} (sound : stream.good = true)

include sound

theorem seek_of_nonneg {offset : Nat} : stream.seek offset = { stream with position := offset } := by
  rw [seek, if_pos sound, if_neg (by omega), Int.toNat_natCast]

theorem seek_of_neg {offset : Int} (negative : offset < 0) :
    stream.seek offset = { stream with good := false } := by
  rw [seek, if_pos sound, if_pos negative]

theorem write_of_good (fill : Symbol) (symbols : List Symbol) :
    stream.write fill symbols =
      { stream with
        content := overwrite fill stream.content stream.position symbols
        position := stream.position + symbols.length } :=
  if_pos sound

/-- A loop that writes one symbol at a time. -/
theorem foldl_write (fill : Symbol) (inside : stream.position ≤ stream.content.length)
    (symbols : List Symbol) :
    symbols.foldl (fun stream symbol => stream.write fill [symbol]) stream =
      stream.write fill symbols := by
  induction symbols generalizing stream with
  | nil =>
      rw [List.foldl_nil, write_of_good sound, overwrite, if_pos rfl]
      rfl
  | cons symbol symbols ih =>
      have next := write_of_good sound fill [symbol]
      have grown : (stream.write fill [symbol]).position ≤
          (stream.write fill [symbol]).content.length := by
        rw [next, length_overwrite fill inside]
        exact Nat.le_max_right _ _
      have stillSound : (stream.write fill [symbol]).good = true := by
        rw [next]
        exact sound
      rw [List.foldl_cons, ih stillSound grown, write_of_good stillSound, next, write_of_good sound]
      rw [FileStream.mk.injEq]
      refine ⟨overwrite_cons fill inside symbol, ?_, rfl⟩
      rw [Nat.add_assoc, Nat.add_comm [symbol].length]
      rfl

end Calls

@[simp] theorem write_of_failed (fill : Symbol) {stream : FileStream Symbol}
    (failed : stream.good = false) (symbols : List Symbol) :
    stream.write fill symbols = stream := by
  simp [write, failed]

@[simp] theorem seek_of_failed {stream : FileStream Symbol} (failed : stream.good = false)
    (offset : Int) : stream.seek offset = stream := by
  simp [seek, failed]

end FileStream

end Foundation
