import AsyncIOManager.Runs
import AsyncIOManager.Descriptors

namespace AsyncIOManager

open Reactor Descriptors

namespace FILEDevice

/-- Where a device is: between two calls, in `Open` before the descriptor is assigned, or in the
destructor between its two closes. -/
inductive Stage
  | ready | opening | closing | gone
deriving DecidableEq, Repr

end FILEDevice

/-- The descriptors of a POSIX device: that of `file_`, none while it is not open, and `fd_`,
none for -1. -/
structure FILEDevice where
  file : Option Nat := none
  fd : Option Nat := none
  stage : FILEDevice.Stage := .ready
deriving DecidableEq, Repr

namespace FILEDevice

/-- What a number stands for: a descriptor that a device has opened, by its place among all that
have been opened, or one of something else. -/
inductive Holder
  | opened (serial : Nat)
  | foreign
deriving DecidableEq, Repr

/-- All devices of a process. `opened` lists which device has opened each descriptor, `closed`
which device has closed what. -/
structure Process where
  table : Table Holder
  devices : List FILEDevice := []
  opened : List Nat := []
  closed : List (Nat × Holder) := []
deriving DecidableEq, Repr

namespace Process

def put (d : Nat) (x : FILEDevice) (s : Process) : Process := { s with devices := s.devices.set d x }

/-- `::open`, which takes the lowest free number. -/
def sysOpen (d : Nat) (s : Process) : Process :=
  { s with table := s.table.allocate (.opened s.opened.length), opened := s.opened ++ [d] }

/-- `::close`; a number that is free, or -1, is only an error. -/
def sysClose (d : Nat) (number : Option Nat) (s : Process) : Process :=
  match number with
  | none => s
  | some n =>
    match s.table.lookup n with
    | none => s
    | some h => { s with table := s.table.release n, closed := s.closed ++ [(d, h)] }

end Process

/-- `Open` up to the call of `::open`. -/
def openFd (d : Nat) (x : FILEDevice) (ok : Bool) (s : Process) : Process :=
  if ok then (s.sysOpen d).put d { x with fd := some s.table.lowest, stage := .opening }
  else s.put d { x with fd := none }

/-- `Open` from `assign` on. -/
def assign (d : Nat) (x : FILEDevice) (ok : Bool) (s : Process) : Process :=
  if ok then s.put d { x with file := x.fd, stage := .ready }
  else (s.sysClose d x.fd).put d { x with fd := none, stage := .ready }

/-- The destructor closes `file_`. -/
def closeFile (d : Nat) (x : FILEDevice) (s : Process) : Process :=
  (s.sysClose d x.file).put d { x with file := none, stage := .closing }

/-- The destructor closes `fd_`. -/
def closeFd (d : Nat) (x : FILEDevice) (s : Process) : Process :=
  (s.sysClose d x.fd).put d { x with stage := .gone }

inductive Act
  | construct
  | openFd (d : Nat) (ok : Bool)
  | assign (d : Nat) (ok : Bool)
  | closeFile (d : Nat)
  | closeFd (d : Nat)
deriving DecidableEq, Repr

/-- A step of device `d` that stands at `stage`. -/
def Process.atStage (d : Nat) (stage : Stage) (f : FILEDevice → Process → Option Process) (s : Process) :
    Option Process :=
  s.devices[d]?.bind fun x => if x.stage = stage then f x s else none

/-- `assign` fails on a descriptor that is open already. -/
def Process.step (s : Process) (a : Act) : Option Process :=
  match a with
  | .construct => some { s with devices := s.devices ++ [{}] }
  | .openFd d ok => s.atStage d .ready fun x s => some (FILEDevice.openFd d x ok s)
  | .assign d ok => s.atStage d .opening fun x s =>
      if ok = true ∧ x.file ≠ none then none else some (FILEDevice.assign d x ok s)
  | .closeFile d => s.atStage d .ready fun x s => some (FILEDevice.closeFile d x s)
  | .closeFd d => s.atStage d .closing fun x s => some (FILEDevice.closeFd d x s)

/-- A process without devices, some of whose numbers are taken. -/
def started (taken : List Bool) : Process := ⟨taken.map fun b => if b then some .foreign else none, [], [], []⟩

end FILEDevice

end AsyncIOManager
