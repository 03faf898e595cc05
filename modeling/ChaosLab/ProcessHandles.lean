import ChaosLab.Foundation.Ownership
import ChaosLab.Foundation.Transition
import ChaosLab.Tcp

/-! `Process` and the handles it owns: the process and the ends of its pipes that the
parent reads. Objects are constructed, launched into, moved and destroyed in any order,
and every call that `launch` makes may fail. -/

set_option autoImplicit false

namespace ChaosLab

open Foundation

/-- A handle that is not null. -/
abbrev Handle := UInt64

/-- The open handles of the program. -/
abbrev Handles := Heap Handle Unit

structure Process where
  process : Option Handle := none
  pid : UInt64 := 0
  pipeOut : Option Handle := none
  pipeErr : Option Handle := none
  exited : Bool := false
  exitCode : Int32 := 0
deriving DecidableEq

namespace Process

/-- `CloseHandle`, unless the field is null. -/
def closeField (field : Option Handle) (handles : Handles) : Handles :=
  match field with
  | some handle => handles.close handle
  | none => handles

def close (process : Process) (handles : Handles) : Process × Handles :=
  let handles := closeField process.pipeOut handles
  let handles := closeField process.pipeErr handles
  let handles := closeField process.process handles
  ({}, handles)

/-- What the system calls of `launch` return, as far as they are made: the two ends of a
pipe, or the handles of the process and of its thread with the id, or an error text. -/
structure Calls where
  pipeOut : Except Bytes (Handle × Handle)
  pipeErr : Except Bytes (Handle × Handle)
  created : Except Bytes (Handle × Handle × UInt32)

def processError (message : Bytes) : Status := { code := .processError, message := message }

/-- `launch` into an object; the handles that a call returns are open from then on. -/
def launch (executable : Bytes) (calls : Calls) (out : Process) (handles : Handles) :
    Status × Process × Handles :=
  let (out, handles) := out.close handles
  match calls.pipeOut with
  | .error reason =>
      (processError (ascii "CreatePipe(stdout) failed: " ++ reason), out, handles)
  | .ok (outRead, outWrite) =>
      let handles := (handles.allot outRead ()).allot outWrite ()
      match calls.pipeErr with
      | .error reason =>
          let handles := (handles.close outRead).close outWrite
          (processError (ascii "CreatePipe(stderr) failed: " ++ reason), out, handles)
      | .ok (errRead, errWrite) =>
          let handles := (handles.allot errRead ()).allot errWrite ()
          match calls.created with
          | .error reason =>
              let handles := (handles.close outWrite).close errWrite
              let handles := (handles.close outRead).close errRead
              (processError (ascii "CreateProcess failed for '" ++ executable ++ ascii "': " ++
                reason), out, handles)
          | .ok (process, thread, pid) =>
              let handles := (handles.allot process ()).allot thread ()
              let handles := (handles.close outWrite).close errWrite
              let out := { out with
                process := some process
                pid := pid.toUInt64
                pipeOut := some outRead
                pipeErr := some errRead
                exited := false
                exitCode := 0 }
              ({}, out, handles.close thread)

inductive Action where
  | construct (slot : Nat)
  | moveConstruct (into source : Nat)
  | moveAssign (into source : Nat)
  | launch (slot : Nat) (executable : Bytes) (calls : Calls)
  | close (slot : Nat)
  | destroy (slot : Nat)

/-- The objects there are, and the open handles. -/
structure Store where
  objects : Nat → Option Process := fun _ => none
  handles : Handles := {}

/-- What is left of an object that was moved from. -/
def emptied (process : Process) : Process :=
  { process with process := none, pipeOut := none, pipeErr := none }

/-- The handles that the calls return, in order. -/
def Calls.returned (calls : Calls) : List Handle :=
  match calls.pipeOut with
  | .error _ => []
  | .ok (outRead, outWrite) =>
      match calls.pipeErr with
      | .error _ => [outRead, outWrite]
      | .ok (errRead, errWrite) =>
          match calls.created with
          | .error _ => [outRead, outWrite, errRead, errWrite]
          | .ok (process, thread, _) => [outRead, outWrite, errRead, errWrite, process, thread]

/-- The system returns handles that are not open. -/
def Calls.fresh (calls : Calls) (handles : Handles) : Bool :=
  calls.returned.Nodup && calls.returned.all fun handle => (handles.live handle).isNone

/-- An object is constructed where there is none, and used, moved from and destroyed where
there is one. -/
def step (store : Store) : Action → Option (Store × List Status)
  | .construct slot =>
      match store.objects slot with
      | none => some ({ store with objects := Function.update store.objects slot (some {}) }, [])
      | some _ => none
  | .moveConstruct into source =>
      match store.objects into, store.objects source with
      | none, some process =>
          some ({ store with
            objects := Function.update
              (Function.update store.objects source (some process.emptied)) into
              (some process) }, [])
      | _, _ => none
  | .moveAssign into source =>
      match store.objects into, store.objects source with
      | some target, some process =>
          if into = source then some (store, [])
          else
            some ({
              objects := Function.update
                (Function.update store.objects source (some process.emptied)) into
                (some process)
              handles := (target.close store.handles).2 }, [])
      | _, _ => none
  | .launch slot executable calls =>
      match store.objects slot with
      | none => none
      | some process =>
          if calls.fresh (process.close store.handles).2 then
            let (status, process, handles) := launch executable calls process store.handles
            some ({ objects := Function.update store.objects slot (some process), handles := handles },
              [status])
          else none
  | .close slot =>
      match store.objects slot with
      | none => none
      | some process =>
          some ({
            objects := Function.update store.objects slot (some (process.close store.handles).1)
            handles := (process.close store.handles).2 }, [])
  | .destroy slot =>
      match store.objects slot with
      | none => none
      | some process =>
          some ({
            objects := Function.update store.objects slot none
            handles := (process.close store.handles).2 }, [])

def machine : Machine Store Action Status := ⟨step⟩

inductive Field where
  | pipeOut | pipeErr | process
deriving DecidableEq

def field (process : Process) : Field → Option Handle
  | .pipeOut => process.pipeOut
  | .pipeErr => process.pipeErr
  | .process => process.process

def held (objects : Nat → Option Process) (holder : Nat × Field) : Option (Handle × Unit) :=
  (objects holder.1).bind fun process => (process.field holder.2).map fun handle => (handle, ())

end Process

end ChaosLab
