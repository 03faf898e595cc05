import ChaosLab.Tcp
import ChaosLab.Foundation.FileStream

/-! The deterministic mutations of a file. -/

set_option autoImplicit false

namespace ChaosLab

open Foundation

inductive MutationKind where
  | truncate | corruptBytes | appendGarbage | overwriteMagic | overwriteVersion | zeroRange
  | writePartialTemp | last
deriving DecidableEq, Repr

structure PersistenceMutation where
  kind : MutationKind := .truncate
  offset : UInt64 := 0
  length : UInt64 := 0
deriving DecidableEq

namespace PersistenceMutation

def ioError (message : Bytes) : Status := { code := .ioError, message := message }

/-- The conversion to `std::streamoff`, which is signed. -/
def streamoff (offset : UInt64) : Int := offset.toInt64.toInt

def written (f : FileStream UInt8) (message : Bytes) : Status :=
  if f.good then {} else ioError message

variable (f : FileStream UInt8) (size : UInt64) (m : PersistenceMutation)

/-- At most 64 bytes are read and written back. -/
def applyCorruptBytes : Status × FileStream UInt8 :=
  let start := m.offset
  let len := if m.length ≠ 0 then m.length else 1
  if start ≥ size then (ioError (ascii "corrupt offset beyond EOF"), f)
  else
    let (got, f) := (f.seek (streamoff start)).read (if len < 64 then len else 64).toNat
    let f := (f.seek (streamoff start)).write 0 (got.map fun byte => byte ^^^ 0xa5)
    (written f (ascii "corrupt write failed"), f)

def applyAppendGarbage : Status × FileStream UInt8 :=
  let n := if m.length ≠ 0 then m.length else 16
  let garbage := (List.range n.toNat).map fun i => 0x7f + UInt8.ofNat i
  let f := garbage.foldl (fun f g => f.write 0 [g]) f.seekEnd
  (written f (ascii "append failed"), f)

def applyOverwriteMagic : Status × FileStream UInt8 :=
  if size < 4 then (ioError (ascii "file too small for magic"), f)
  else
    let f := (f.seek 0).write 0 [0xde, 0xad, 0xbe, 0xef]
    (written f (ascii "magic write failed"), f)

def applyOverwriteVersion : Status × FileStream UInt8 :=
  if m.offset + 4 > size then (ioError (ascii "version offset beyond EOF"), f)
  else
    let f := (f.seek (streamoff m.offset)).write 0 [0, 0, 0, 0]
    (written f (ascii "version write failed"), f)

def applyZeroRange : Status × FileStream UInt8 :=
  if m.offset ≥ size then (ioError (ascii "zero offset beyond EOF"), f)
  else
    let len := if m.length = 0 then 1 else m.length
    let len := if m.offset + len > size then size - m.offset else len
    let f := (List.replicate len.toNat 0).foldl (fun f z => f.write 0 [z])
      (f.seek (streamoff m.offset))
    (written f (ascii "zero write failed"), f)

end PersistenceMutation

/-- `apply_mutation`: its status, and what it leaves of the file. There is no file where it
cannot be opened. -/
def applyMutation (path : Bytes) (file : Option Bytes) (m : PersistenceMutation) :
    Status × Option Bytes :=
  match file with
  | none => (PersistenceMutation.ioError (ascii "cannot open for mutation: " ++ path), none)
  | some content =>
      let f := ({ content := content } : FileStream UInt8).seekEnd
      let size := UInt64.ofNat f.position
      let f := f.clear
      let left := fun (result : Status × FileStream UInt8) => (result.1, some result.2.content)
      match m.kind with
      | .truncate =>
          let cut := if m.offset > size then size else m.offset
          ({}, some (content.take cut.toNat))
      | .corruptBytes => left (PersistenceMutation.applyCorruptBytes f size m)
      | .appendGarbage => left (PersistenceMutation.applyAppendGarbage f m)
      | .overwriteMagic => left (PersistenceMutation.applyOverwriteMagic f size)
      | .overwriteVersion => left (PersistenceMutation.applyOverwriteVersion f size m)
      | .zeroRange => left (PersistenceMutation.applyZeroRange f size m)
      | .writePartialTemp => ({}, some content)
      | .last =>
          ({ code := .invalidArgument, message := ascii "unknown mutation" }, some content)

end ChaosLab
