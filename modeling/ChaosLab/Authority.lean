import ChaosLab.Identity
import ChaosLab.Tcp

/-! The authority envelope: its text form, and when a candidate is stale. -/

set_option autoImplicit false

namespace ChaosLab

open Foundation

structure AuthorityEnvelope where
  epoch : CoordinatorEpoch := {}
  worker : WorkerId := {}
  boot : WorkerBootId := {}
  attempt : AttemptId := {}
  attemptGen : AttemptGeneration := {}
  dispatch : DispatchId := {}
  targetGen : TargetGeneration := {}
deriving DecidableEq

namespace AuthorityEnvelope

def pair (key : Bytes) (value : UInt64) : Bytes := key ++ [Byte.equals] ++ toHex value

def toText (authority : AuthorityEnvelope) : Bytes :=
  pair (ascii "epoch") authority.epoch.value ++ [Byte.semicolon] ++
  pair (ascii "worker") authority.worker.value ++ [Byte.semicolon] ++
  pair (ascii "boot") authority.boot.value ++ [Byte.semicolon] ++
  pair (ascii "attempt") authority.attempt.value ++ [Byte.semicolon] ++
  pair (ascii "attempt_gen") authority.attemptGen.value ++ [Byte.semicolon] ++
  pair (ascii "dispatch") authority.dispatch.value ++ [Byte.semicolon] ++
  pair (ascii "target_gen") authority.targetGen.value

def keys : List Bytes :=
  [ascii "epoch", ascii "worker", ascii "boot", ascii "attempt", ascii "attempt_gen",
    ascii "dispatch", ascii "target_gen"]

def invalid (message : Bytes) : Status := { code := .invalidArgument, message := message }

/-- One turn of the loop of `parse`: a part of the text, against the key in its place. -/
def parseField (key part : Bytes) : Except Status UInt64 :=
  match cutAt Byte.equals part with
  | none => .error (invalid (ascii "malformed authority field"))
  | some (name, digits) =>
      if name ≠ key then .error (invalid (ascii "authority key mismatch"))
      else
        match fromHex digits with
        | none => .error (invalid (ascii "authority value not hex"))
        | some value => .ok value

/-- The loop of `parse`, with the values it has filled in. -/
def parseFields : List (Bytes × Bytes) → Except Status (List UInt64)
  | [] => .ok []
  | (key, part) :: rest =>
      match parseField key part with
      | .error status => .error status
      | .ok value =>
          match parseFields rest with
          | .error status => .error status
          | .ok values => .ok (value :: values)

def ofValues (values : List UInt64) : AuthorityEnvelope where
  epoch := { value := values.getD 0 0 }
  worker := { value := values.getD 1 0 }
  boot := { value := values.getD 2 0 }
  attempt := { value := values.getD 3 0 }
  attemptGen := { value := values.getD 4 0 }
  dispatch := { value := values.getD 5 0 }
  targetGen := { value := values.getD 6 0 }

/-- `AuthorityEnvelope::parse`: its status, and what it leaves in `out`. -/
def parse (text : Bytes) : Status × AuthorityEnvelope :=
  let parts := split text Byte.semicolon
  if parts.length ≠ 7 then (invalid (ascii "authority envelope must have 7 fields"), {})
  else
    match parseFields (keys.zip parts) with
    | .error status => (status, {})
    | .ok values => ({}, ofValues values)

end AuthorityEnvelope

def authorityMatches (current candidate : AuthorityEnvelope) : Bool := current = candidate

/-- A zero in the candidate says that it does not carry the value. -/
def older (cur cand : UInt64) : Bool := cand ≠ 0 ∧ cand < cur

def authorityIsStale (current candidate : AuthorityEnvelope) : Bool :=
  if older current.epoch.value candidate.epoch.value then true
  else if older current.boot.value candidate.boot.value then true
  else if older current.attempt.value candidate.attempt.value then true
  else if older current.attemptGen.value candidate.attemptGen.value then true
  else if older current.dispatch.value candidate.dispatch.value then true
  else if older current.targetGen.value candidate.targetGen.value then true
  else false

/-- `stale_dimension`: empty for a candidate that is not stale. -/
def staleDimension (current candidate : AuthorityEnvelope) : Bytes :=
  if older current.epoch.value candidate.epoch.value then ascii "epoch"
  else if older current.boot.value candidate.boot.value then ascii "boot"
  else if older current.attempt.value candidate.attempt.value then ascii "attempt"
  else if older current.attemptGen.value candidate.attemptGen.value then ascii "attempt_gen"
  else if older current.dispatch.value candidate.dispatch.value then ascii "dispatch"
  else if older current.targetGen.value candidate.targetGen.value then ascii "target_gen"
  else []

/-- `stale_combination`: a candidate an adversary makes from the current envelope. -/
def staleCombination (kind : Int32) (current : AuthorityEnvelope) : AuthorityEnvelope :=
  if kind = 0 then { current with boot := { value := current.boot.value - 1 } }
  else if kind = 1 then { current with attempt := { value := current.attempt.value - 1 } }
  else if kind = 2 then { current with dispatch := { value := current.dispatch.value - 1 } }
  else if kind = 3 then { current with targetGen := { value := current.targetGen.value - 1 } }
  else if kind = 5 then { current with epoch := { value := current.epoch.value + 1 } }
  else current

end ChaosLab
