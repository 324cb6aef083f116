import AsyncIOManager.SFTPSaver
import AsyncIOManager.FileStore

namespace AsyncIOManager

open Reactor Files

namespace MNNSaver

inductive Exception
  | badResultAccess
  | rangeError (what : Str)
  | filesystemError
deriving DecidableEq, Repr

/-- How `SaveASync` is left: `undefined` by a null pointer. -/
inductive Exit
  | returned
  | threw (e : Exception)
  | undefined
deriving DecidableEq, Repr

/-- What one pass of the loop meets: the directories of the file cannot be created, or the
stream and then the device are opened or not. When the device is opened and the contents have
come to an end, `content` is what is found behind them. -/
inductive Opening
  | throws
  | tried (stream device : Bool)
  | beyond (stream : Bool) (content : Str)
deriving DecidableEq, Repr

/-- A queued write with what it has written so far, or a posted `handle_write`. -/
inductive Handler
  | write (file content : Str) (written : Nat)
  | handleWrite
deriving DecidableEq, Repr

inductive Ec
  | success | error
deriving DecidableEq, Repr

variable {φ : Type}

/-- One call of `SaveASync`. `todo` and `contents` are what the loop has not come to yet,
`created` the files that it has opened, `stored` the writes that have succeeded. Once the
contents have been indexed out of range, the standard promises nothing any more. -/
structure Save (φ : Type) where
  filename : Str := []
  data : Payload := ⟨[], []⟩
  todo : List Str := []
  contents : List Str := []
  remainingWrites : Nat := 0
  saveLocation : Option Str := none
  disk : Disk φ Char
  created : List Str := []
  stored : List (Str × Str) := []
  handleWrites : Nat := 0
  outOfRange : Bool := false
  exit : Option Exit := none

abbrev Saving (φ : Type) := Loop (Save φ) Handler Ec

namespace Save

def leave (e : Exit) (m : Save φ) : Save φ := { m with exit := some e }

/-- The stream has been opened, which empties the file. -/
def truncate [DecidableEq φ] (target : Str → φ) (file : Str) (m : Save φ) : Save φ :=
  { m with disk := m.disk.put (target file) [], created := m.created ++ [cStr file] }

/-- The device has been opened, with `O_CREAT` and without `O_TRUNC`. -/
def openDevice [DecidableEq φ] (target : Str → φ) (file : Str) (m : Save φ) : Save φ :=
  { m with disk := m.disk.create (target file), created := m.created ++ [cStr file] }

def pwrite [DecidableEq φ] (target : Str → φ) (file : Str) (offset : Nat) (bytes : Str) (m : Save φ) :
    Save φ :=
  let old := (m.disk (target file)).getD []
  { m with disk := m.disk.put (target file) (Files.pwrite old offset bytes) }

end Save

/-- Only such a path can name a regular file. -/
def namesFile (path : Str) : Bool :=
  filename (cStr path) ≠ [] && filename (cStr path) ≠ ".".toList && filename (cStr path) ≠ "..".toList

/-- The next pass of the loop over the files, or its end. -/
def next [DecidableEq φ] (target : Str → φ) (o : Opening) (s : Saving φ) : Option (Saving φ) :=
  if s.state.exit ≠ none then none
  else
    match s.state.todo with
    | [] => some (s.modify (Save.leave .returned))
    | path :: todo =>
      let directoryWithFile := s.state.filename ++ path
      let s := s.modify fun m => { m with todo }
      match o with
      | .throws => some (s.modify (Save.leave (.threw .filesystemError)))
      | .tried stream device =>
        if (stream || device) && !namesFile directoryWithFile then none
        else
          let s := if stream then s.modify (Save.truncate target directoryWithFile) else s
          if !device then some ((s.modify (Save.leave .returned)).post .handleWrite .success)
          else
            let s := s.modify (Save.openDevice target directoryWithFile)
            match s.state.contents with
            | [] => none
            | content :: contents =>
              some ((s.modify fun m => { m with contents }).start (.write directoryWithFile content 0))
      | .beyond stream content =>
        if namesFile directoryWithFile = false ∨ s.state.contents ≠ [] then none
        else
          let s := if stream then s.modify (Save.truncate target directoryWithFile) else s
          let s := s.modify (Save.openDevice target directoryWithFile)
          some ((s.modify fun m => { m with outOfRange := true }).start (.write directoryWithFile content 0))

/-- The queued write `k` writes `n` more bytes. -/
def transfer [DecidableEq φ] (target : Str → φ) (k n : Nat) (s : Saving φ) : Option (Saving φ) :=
  match s.pool[k]? with
  | some ⟨.write file content written, none⟩ =>
    if written + n ≤ content.length then
      some {
        state := s.state.pwrite target file written ((content.drop written).take n)
        pool := s.pool.set k ⟨.write file content (written + n), none⟩ }
    else none
  | _ => none

/-- The queued write `k` is done. It succeeds only when everything is written. -/
def complete (k : Nat) (e : Ec) (s : Saving φ) : Option (Saving φ) :=
  match s.pool[k]? with
  | some ⟨.write file content written, none⟩ =>
    if e = .error ∨ written = content.length then
      some { s with pool := s.pool.set k ⟨.write file content written, some e⟩ }
    else none
  | _ => none

inductive Act
  | next (o : Opening)
  | transfer (k n : Nat)
  | complete (k : Nat) (e : Ec)
deriving DecidableEq, Repr

def Act.perform [DecidableEq φ] (target : Str → φ) (a : Act) (s : Saving φ) : Option (Saving φ) :=
  match a with
  | .next o => MNNSaver.next target o s
  | .transfer k n => MNNSaver.transfer target k n s
  | .complete k e => MNNSaver.complete k e s

def handleWrite (m : Save φ) : Save φ := { m with handleWrites := m.handleWrites + 1 }

/-- The callback of a write, which looks at no error. -/
def countDown (m : Save φ) : Save φ :=
  let m := { m with remainingWrites := sizeSub m.remainingWrites 1 }
  if m.remainingWrites ≤ 0 then handleWrite m else m

/-- A write ends, and its callback runs. -/
def written (file content : Str) (e : Ec) (m : Save φ) : Save φ :=
  countDown (if e = .success then { m with stored := m.stored ++ [(file, content)] } else m)

def Handler.run (h : Handler) (e : Ec) (_ : Unit) (s : Saving φ) : Option (Saving φ) :=
  match h with
  | write file content _ => some (s.modify (MNNSaver.written file content e))
  | handleWrite => some (s.modify MNNSaver.handleWrite)

/-- A write ends by `Act.complete`, which also looks at what it has written. -/
def machine [DecidableEq φ] (target : Str → φ) : Machine (Save φ) Handler Ec Unit Act where
  completes _ _ := false
  run := Handler.run
  call := Act.perform target

/-- The path that the files of a save are appended to. -/
def destination (filename uuid : Str) : Str := if filename = [] then uuid ++ "/".toList else filename

/-- The state in which the loop starts, or the exception. `nullData` tells that the vector
of the contents has no storage, `uuid` is a fresh one. -/
def saveASync (filename : Str) (data : ResultType) (nullData : Bool) (uuid : Str)
    (saveLocation : Option Str) (disk : Disk φ Char) : Saving φ :=
  match data with
  | .failure _ => ⟨{ saveLocation, disk, exit := some (.threw .badResultAccess) }, []⟩
  | .success none => ⟨{ saveLocation, disk, exit := some .undefined }, []⟩
  | .success (some data) =>
    if data.second = [] ∧ nullData = true then
      ⟨{ data, saveLocation, disk, exit := some (.threw (.rangeError "Can not save with null data".toList)) }, []⟩
    else
      let filename := destination filename uuid
      let saveLocation := saveLocation.map fun _ => "file://".toList ++ filename
      ⟨{
        filename, data, saveLocation, disk
        todo := data.first
        contents := data.second
        remainingWrites := data.first.length }, []⟩

end MNNSaver

end AsyncIOManager
