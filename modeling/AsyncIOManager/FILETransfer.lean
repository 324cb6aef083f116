import AsyncIOManager.EventLoop
import AsyncIOManager.FileStore
import AsyncIOManager.FILEOwnership

namespace AsyncIOManager

open Reactor Descriptors Files

namespace FILEDevice

variable {φ α : Type}

/-- What an open descriptor stands for: a file, whether it is open for writing, and an offset. -/
structure Description (φ : Type) where
  place : φ
  writes : Bool
  offset : Nat := 0
deriving DecidableEq, Repr

inductive Transfer (α : Type)
  | read (count : Nat)
  | write (bytes : List α)
deriving DecidableEq, Repr

/-- What a read or a write returns: `bad` for a number that is free or open for the other
direction, `strayed` for one that stands for something else. -/
inductive Result (α : Type)
  | read (bytes : List α)
  | wrote (count : Nat)
  | bad
  | strayed
deriving DecidableEq, Repr

/-- What a device uses its number for, or a step of its `Open` or of its destructor. -/
inductive Use (φ α : Type)
  | construct (filename : φ) (writemode : Bool)
  | device (a : Act)
  | transfer (d : Nat) (t : Transfer α)
deriving DecidableEq, Repr

section Model

variable [DecidableEq φ]

/-- A transfer at an offset, with the offset behind it. -/
def Transfer.apply (t : Transfer α) (x : Description φ) (disk : Disk φ α) : Description φ × Disk φ α × Result α :=
  let content := (disk x.place).getD []
  match t with
  | .read count =>
    if x.writes then (x, disk, .bad)
    else
      let bytes := (content.drop x.offset).take count
      ({ x with offset := x.offset + bytes.length }, disk, .read bytes)
  | .write bytes =>
    if x.writes then
      ({ x with offset := x.offset + bytes.length }, disk.put x.place (pwrite content x.offset bytes),
        .wrote bytes.length)
    else (x, disk, .bad)

/-- The devices of a process with the name and the mode of each, what each descriptor that has
been opened stands for, the files, and what transfers have returned. -/
structure Storage (φ α : Type) where
  process : Process
  names : List (φ × Bool)
  descriptions : List (Description φ)
  disk : Disk φ α
  results : List (Nat × Result α) := []

/-- `::open` of a device: a file is created for writing, and has to be there for reading. -/
def Storage.openFile (d : Nat) (s : Storage φ α) : Option (Storage φ α) :=
  s.names[d]?.bind fun name =>
    if name.2 = false ∧ s.disk name.1 = none then none
    else (s.process.step (.openFd d true)).map fun p => { s with
      process := p
      descriptions := s.descriptions ++ [⟨name.1, name.2, 0⟩]
      disk := if name.2 then s.disk.create name.1 else s.disk }

/-- A transfer goes through the number of `file_`, to whatever the number stands for. -/
def Storage.transfer (d : Nat) (t : Transfer α) (s : Storage φ α) : Option (Storage φ α) :=
  s.process.devices[d]?.bind fun x => if x.stage ≠ .ready then none else x.file.bind fun n =>
    match s.process.table.lookup n with
    | none => some { s with results := s.results ++ [(d, .bad)] }
    | some .foreign => some { s with results := s.results ++ [(d, .strayed)] }
    | some (.opened k) => s.descriptions[k]?.map fun e => { s with
        descriptions := s.descriptions.set k (t.apply e s.disk).1
        disk := (t.apply e s.disk).2.1
        results := s.results ++ [(d, (t.apply e s.disk).2.2)] }

def Storage.step (s : Storage φ α) : Use φ α → Option (Storage φ α)
  | .construct filename writemode => (s.process.step .construct).map fun p =>
      { s with process := p, names := s.names ++ [(filename, writemode)] }
  | .device .construct => none
  | .device (.openFd d true) => s.openFile d
  | .device a => (s.process.step a).map fun p => { s with process := p }
  | .transfer d t => s.transfer d t

/-- A process without devices, and the files that it finds. -/
def Storage.begun (taken : List Bool) (disk : Disk φ α) : Storage φ α := ⟨started taken, [], [], disk, []⟩

/-- A device as its user sees it: a file, and a position in it while it is open. -/
structure Handle (φ : Type) where
  place : φ
  writes : Bool
  position : Option Nat := none
deriving DecidableEq, Repr

/-- Devices that each have a file of their own. -/
structure Handles (φ α : Type) where
  count : Nat
  handle : Nat → Option (Handle φ)
  disk : Disk φ α
  results : List (Nat × Result α)

namespace Handles

def put (d : Nat) (x : Handle φ) (s : Handles φ α) : Handles φ α :=
  { s with handle := Function.update s.handle d (some x) }

/-- A transfer of an open device is one of its own file, at its own position. -/
def transfer (d : Nat) (t : Transfer α) (s : Handles φ α) : Option (Handles φ α) :=
  (s.handle d).bind fun x => x.position.map fun p =>
    { s.put d { x with position := some (t.apply ⟨x.place, x.writes, p⟩ s.disk).1.offset } with
      disk := (t.apply ⟨x.place, x.writes, p⟩ s.disk).2.1
      results := s.results ++ [(d, (t.apply ⟨x.place, x.writes, p⟩ s.disk).2.2)] }

def step (s : Handles φ α) : Use φ α → Option (Handles φ α)
  | .construct filename writemode =>
    some { s.put s.count ⟨filename, writemode, none⟩ with count := s.count + 1 }
  | .device (.openFd d true) => (s.handle d).map fun x =>
      { s with disk := if x.writes then s.disk.create x.place else s.disk }
  | .device (.assign d true) => (s.handle d).map fun x => s.put d { x with position := some 0 }
  | .device (.closeFile d) => (s.handle d).map fun x => s.put d { x with position := none }
  | .device _ => some s
  | .transfer d t => s.transfer d t

def begun (disk : Disk φ α) : Handles φ α := ⟨0, fun _ => none, disk, []⟩

end Handles

end Model

section Shows

/-- Where a device stands in the file that its number stands for. -/
def Storage.position (s : Storage φ α) (x : FILEDevice) : Option Nat :=
  x.file.bind fun n => (s.process.table.lookup n).bind fun h =>
    match h with
    | .opened k => s.descriptions[k]?.map Description.offset
    | .foreign => none

/-- A process as the users of its devices see it. -/
def Storage.handles (s : Storage φ α) : Handles φ α where
  count := s.names.length
  handle d := s.names[d]?.bind fun name => s.process.devices[d]?.map fun x => ⟨name.1, name.2, s.position x⟩
  disk := s.disk
  results := s.results

/-- No number is opened again between the two closes of a destructor. -/
def Storage.Careful (s : Storage φ α) : Use φ α → Prop
  | .device a => FILEDevice.Careful s.process a
  | _ => True

instance (s : Storage φ α) (u : Use φ α) : Decidable (s.Careful u) := by
  unfold Storage.Careful
  split <;> infer_instance

/-- What a descriptor stands for is what its device was constructed with, and what has been opened
and is not assigned yet has not been used. -/
structure Storage.Kept (s : Storage φ α) : Prop where
  orderly : Orderly s.process
  named : s.names.length = s.process.devices.length
  numbered : s.descriptions.length = s.process.opened.length
  own : ∀ k d : Nat, s.process.opened[k]? = some d → ∃ (name : φ × Bool) (e : Description φ), s.names[d]? = some name ∧
    s.descriptions[k]? = some e ∧ e.place = name.1 ∧ e.writes = name.2
  fresh : ∀ (d : Nat) (x : FILEDevice) (n k : Nat) (e : Description φ), s.process.devices[d]? = some x → x.stage = .opening → x.fd = some n →
    s.process.table.lookup n = some (.opened k) → s.descriptions[k]? = some e → e.offset = 0

variable {s t : Storage φ α} {d : Nat} {x y : FILEDevice} {name : φ × Bool}

theorem position_congr (lookup : ∀ n, x.file = some n → t.process.table.lookup n = s.process.table.lookup n)
    (descriptions : ∀ n k, x.file = some n → s.process.table.lookup n = some (.opened k) →
      t.descriptions[k]? = s.descriptions[k]?) : t.position x = s.position x := by
  unfold Storage.position
  cases file : x.file with
  | none => rfl
  | some n =>
    simp only [Option.bind_some, lookup n file]
    cases there : s.process.table.lookup n with
    | none => rfl
    | some h =>
      cases h with
      | foreign => rfl
      | opened k => simp only [Option.bind_some, descriptions n k file there]

/-- A step of one device leaves the handles of the others alone. -/
theorem Storage.Kept.handle_update (hs : s.Kept) (devices : t.process.devices = s.process.devices.set d y)
    (names : t.names = s.names) (inside : d < s.process.devices.length) (known : s.names[d]? = some name)
    (lookup : ∀ e n, e ≠ d → Owns s.process e n → t.process.table.lookup n = s.process.table.lookup n)
    (descriptions : ∀ e n k, e ≠ d → Owns s.process e n → s.process.table.lookup n = some (.opened k) →
      t.descriptions[k]? = s.descriptions[k]?) :
    t.handles.handle = Function.update s.handles.handle d (some ⟨name.1, name.2, t.position y⟩) := by
  funext e
  by_cases same : e = d
  · subst same
    simp [Storage.handles, names, known, devices, inside]
  · rw [Function.update_of_ne same]
    simp only [Storage.handles, names, devices, List.getElem?_set_ne (Ne.symm same)]
    cases there : s.names[e]? with
    | none => rfl
    | some other =>
      cases found : s.process.devices[e]? with
      | none => rfl
      | some z =>
        have owns (n : Nat) (file : z.file = some n) : Owns s.process e n := (hs.orderly.keeps e z found).1 n file
        simp only [Option.bind_some, Option.map_some]
        rw [position_congr (fun n file => lookup e n same (owns n file))
          fun n k file at_n => descriptions e n k same (owns n file) at_n]

theorem Storage.Kept.change (hs : s.Kept) (orderly : Orderly t.process)
    (devices : t.process.devices = s.process.devices.set d y) (names : t.names = s.names)
    (descriptions : t.descriptions = s.descriptions) (opened : t.process.opened = s.process.opened)
    (closed : y.stage ≠ .opening)
    (lookup : ∀ e n, e ≠ d → Owns s.process e n → t.process.table.lookup n = s.process.table.lookup n) : t.Kept := by
  refine ⟨orderly, ?_, ?_, ?_, ?_⟩
  · rw [names, devices, List.length_set]
    exact hs.named
  · rw [descriptions, opened]
    exact hs.numbered
  · rw [names, descriptions, opened]
    exact hs.own
  · intro e z n k f found opening fd there here
    rw [devices] at found
    rw [descriptions] at here
    rcases set_cases found with ⟨_, same⟩ | ⟨other, found⟩
    · rw [same] at opening
      exact absurd opening closed
    · obtain ⟨_, held⟩ := hs.orderly.keeps e z found
      obtain ⟨m, hm, owns, _⟩ := by simpa [opening] using held
      obtain rfl : m = n := Option.some.inj (hm.symm.trans fd)
      rw [lookup e m other owns] at there
      exact hs.fresh e z m k f found opening fd there here

/-- A device that is known has been given a name. -/
theorem Storage.Kept.named_device (hs : s.Kept) (found : s.process.devices[d]? = some x) : ∃ name, s.names[d]? = some name := by
  have inside := (List.getElem?_eq_some_iff.mp found).1
  rw [← hs.named] at inside
  exact ⟨_, List.getElem?_eq_getElem inside⟩

theorem Storage.handle_known (found : s.process.devices[d]? = some x) (known : s.names[d]? = some name) :
    s.handles.handle d = some ⟨name.1, name.2, s.position x⟩ := by
  simp [Storage.handles, found, known]

theorem Storage.handles_eq {h : Nat → Option (Handle φ)} (shown : t.handles.handle = h) :
    t.handles = ⟨t.names.length, h, t.disk, t.results⟩ := by
  rw [← shown]
  rfl

theorem Handles.put_self {h : Handles φ α} {z : Handle φ} (known : h.handle d = some z) : h.put d z = h := by
  rw [Handles.put, ← known, Function.update_eq_self]

/-- A step of one device that opens nothing. -/
theorem Storage.Kept.stays (hs : s.Kept) {p : Process} (orderly : Orderly p)
    (devices : p.devices = s.process.devices.set d y) (opened : p.opened = s.process.opened)
    (found : s.process.devices[d]? = some x) (closed : y.stage ≠ .opening)
    (lookup : ∀ e n, e ≠ d → Owns s.process e n → p.table.lookup n = s.process.table.lookup n) :
    Storage.Kept { s with process := p } ∧ ∃ name : φ × Bool, s.names[d]? = some name ∧
      s.handles.handle d = some ⟨name.1, name.2, s.position x⟩ ∧
      ({ s with process := p } : Storage φ α).handles =
        s.handles.put d ⟨name.1, name.2, ({ s with process := p } : Storage φ α).position y⟩ := by
  obtain ⟨name, known⟩ := hs.named_device found
  have inside := (List.getElem?_eq_some_iff.mp found).1
  refine ⟨hs.change (t := { s with process := p }) orderly devices rfl rfl opened closed lookup, name, known,
    Storage.handle_known found known, ?_⟩
  rw [Storage.handles_eq (hs.handle_update (t := { s with process := p }) devices rfl inside known lookup
    fun _ _ _ _ _ _ => rfl)]
  rfl

/-- A device that closes a number of its own leaves the other numbers alone. -/
theorem lookup_sysClose {p : Process} {n m : Nat} (own : Owns p d n) (other : m ≠ n) :
    (p.sysClose d (some n)).table.lookup m = p.table.lookup m := by
  obtain ⟨k, there, _⟩ := own
  rw [sysClose_owned there]
  exact (Table.lookup_release ..).trans (if_neg other)

theorem others_sysClose {p : Process} {n : Nat} (own : Owns p d n) (e m : Nat) (other : e ≠ d) (owns : Owns p e m) :
    (p.sysClose d (some n)).table.lookup m = p.table.lookup m := by
  refine lookup_sysClose own ?_
  rintro rfl
  exact other (own.same owns)

theorem opened_sysClose {p : Process} {n : Nat} (own : Owns p d n) : (p.sysClose d (some n)).opened = p.opened := by
  obtain ⟨k, there, _⟩ := own
  rw [sysClose_owned there]

theorem devices_sysClose {p : Process} {n : Nat} (own : Owns p d n) : (p.sysClose d (some n)).devices = p.devices := by
  obtain ⟨k, there, _⟩ := own
  rw [sysClose_owned there]

/-- A step of one device that closes a number of its own. -/
theorem Storage.Kept.closes (hs : s.Kept) {n : Nat} (owns : Owns s.process d n)
    (orderly : Orderly ((s.process.sysClose d (some n)).put d y)) (found : s.process.devices[d]? = some x)
    (closed : y.stage ≠ .opening) :
    Storage.Kept { s with process := (s.process.sysClose d (some n)).put d y } ∧ ∃ name : φ × Bool,
      s.names[d]? = some name ∧ s.handles.handle d = some ⟨name.1, name.2, s.position x⟩ ∧
      ({ s with process := (s.process.sysClose d (some n)).put d y } : Storage φ α).handles =
        s.handles.put d ⟨name.1, name.2,
          ({ s with process := (s.process.sysClose d (some n)).put d y } : Storage φ α).position y⟩ := by
  refine hs.stays orderly ?_ (opened_sysClose owns) found closed (others_sysClose owns)
  rw [Process.put, devices_sysClose owns]

theorem kept_begun (taken : List Bool) (disk : Disk φ α) : (Storage.begun taken disk).Kept := by
  refine ⟨orderly_started taken, rfl, rfl, ?_, ?_⟩
  · intro k d opened
    cases opened
  · intro d x n k e found
    cases found

end Shows

section Steps

variable [DecidableEq φ] {s t : Storage φ α} {d : Nat} {x y : FILEDevice} {name : φ × Bool}

theorem Storage.Kept.construct (hs : s.Kept) (filename : φ) (writemode : Bool) {p : Process}
    (step : s.process.step .construct = some p) :
    Storage.Kept { s with process := p, names := s.names ++ [(filename, writemode)] } ∧
      s.handles.step (.construct filename writemode) =
        some ({ s with process := p, names := s.names ++ [(filename, writemode)] } : Storage φ α).handles := by
  obtain rfl := Option.some.inj step
  have inside {d : Nat} {z : φ × Bool} (known : s.names[d]? = some z) :
      (s.names ++ [(filename, writemode)])[d]? = some z :=
    (List.getElem?_append_left (List.getElem?_eq_some_iff.mp known).1).trans known
  refine ⟨⟨hs.orderly.construct, ?_, hs.numbered, ?_, ?_⟩, ?_⟩
  · simp [hs.named]
  · intro k d opened
    obtain ⟨name, e, known, rest⟩ := hs.own k d opened
    exact ⟨name, e, inside known, rest⟩
  · intro d x n k e found opening
    rcases concat_cases found with old | new
    · exact hs.fresh d x n k e old opening
    · rw [new] at opening
      cases opening
  · simp only [Handles.step, Storage.handles, Handles.put]
    congr 2
    · simp
    · funext d
      have length := hs.named
      rcases Nat.lt_trichotomy d s.names.length with old | rfl | later
      · rw [Function.update_of_ne (Nat.ne_of_lt old), List.getElem?_append_left old,
          List.getElem?_append_left (by omega)]
        rfl
      · rw [Function.update_self, List.getElem?_concat_length, length, List.getElem?_concat_length]
        rfl
      · have before : s.names[d]? = none := List.getElem?_eq_none (by omega)
        have after : (s.names ++ [(filename, writemode)])[d]? = none := List.getElem?_eq_none (by simp; omega)
        rw [Function.update_of_ne (Nat.ne_of_gt later), before, after]
        rfl

/-- `::open` gives a device a number that nobody uses. -/
theorem Storage.Kept.openFile (hs : s.Kept) (careful : FILEDevice.Careful s.process (.openFd d true))
    (step : s.openFile d = some t) : t.Kept ∧ s.handles.step (.device (.openFd d true)) = some t.handles := by
  obtain ⟨name, known, step⟩ := Option.bind_eq_some_iff.mp step
  split at step
  next => cases step
  next there =>
    obtain ⟨p, hp, rfl⟩ := Option.map_eq_some_iff.mp step
    have steps := step_steps hp
    have orderly := hs.orderly.step careful steps
    cases steps with
    | @openFd _ x ok found ready =>
      have inside := (List.getElem?_eq_some_iff.mp found).1
      have old {n : Nat} (taken : s.process.table.lookup n ≠ none) :
          (FILEDevice.openFd d x true s.process).table.lookup n = s.process.table.lookup n := by
        have other : n ≠ s.process.table.lowest := by
          rintro rfl
          exact taken (Table.lookup_lowest _)
        exact (Table.lookup_allocate ..).trans (if_neg other)
      have before {n k : Nat} (at_n : s.process.table.lookup n = some (.opened k)) :
          (s.descriptions ++ [⟨name.1, name.2, 0⟩])[k]? = s.descriptions[k]? := by
        have earlier := hs.orderly.known at_n
        rw [← hs.numbered] at earlier
        exact List.getElem?_append_left earlier
      have lookup (e n : Nat) (owns : Owns s.process e n) :
          (FILEDevice.openFd d x true s.process).table.lookup n = s.process.table.lookup n := old owns.taken
      refine ⟨⟨orderly, ?_, ?_, ?_, ?_⟩, ?_⟩
      · change s.names.length = (s.process.devices.set d _).length
        rw [List.length_set]
        exact hs.named
      · change (s.descriptions ++ [_]).length = (s.process.opened ++ [d]).length
        simp [hs.numbered]
      · intro k e opened
        change (s.process.opened ++ [d])[k]? = some e at opened
        change ∃ (other : φ × Bool) (f : Description φ), s.names[e]? = some other ∧
          (s.descriptions ++ [⟨name.1, name.2, 0⟩])[k]? = some f ∧ f.place = other.1 ∧ f.writes = other.2
        rcases Nat.lt_or_ge k s.process.opened.length with earlier | last
        · rw [List.getElem?_append_left earlier] at opened
          obtain ⟨other, f, known', here, rest⟩ := hs.own k e opened
          refine ⟨other, f, known', ?_, rest⟩
          rwa [List.getElem?_append_left (by rw [hs.numbered]; exact earlier)]
        · have bound := (List.getElem?_eq_some_iff.mp opened).1
          rw [List.length_append, List.length_singleton] at bound
          obtain rfl : k = s.process.opened.length := by omega
          rw [List.getElem?_concat_length] at opened
          obtain rfl := Option.some.inj opened
          refine ⟨name, ⟨name.1, name.2, 0⟩, known, ?_, rfl, rfl⟩
          rw [← hs.numbered, List.getElem?_concat_length]
      · intro e z n k f found' opening fd at_n here
        change (s.process.devices.set d _)[e]? = some z at found'
        change (s.descriptions ++ [⟨name.1, name.2, 0⟩])[k]? = some f at here
        rcases set_cases found' with ⟨_, same⟩ | ⟨_, found'⟩
        · obtain rfl : s.process.table.lowest = n := by
            rw [same] at fd
            exact Option.some.inj fd
          obtain rfl : s.process.opened.length = k := by
            have new : (FILEDevice.openFd d x true s.process).table.lookup s.process.table.lowest =
                some (.opened s.process.opened.length) := (Table.lookup_allocate ..).trans (if_pos rfl)
            simpa using new.symm.trans at_n
          rw [← hs.numbered, List.getElem?_concat_length] at here
          rw [← Option.some.inj here]
        · obtain ⟨_, held⟩ := hs.orderly.keeps e z found'
          obtain ⟨m, hm, owns, _⟩ := by simpa [opening] using held
          obtain rfl : m = n := Option.some.inj (hm.symm.trans fd)
          have at_n : s.process.table.lookup m = some (.opened k) := (lookup e m owns).symm.trans at_n
          rw [before at_n] at here
          exact hs.fresh e z m k f found' opening fd at_n here
      · have shown := hs.handle_update (t := ⟨FILEDevice.openFd d x true s.process, s.names,
          s.descriptions ++ [⟨name.1, name.2, 0⟩], if name.2 then s.disk.create name.1 else s.disk, s.results⟩)
          rfl rfl inside known (fun e n _ owns => lookup e n owns) (fun _ _ _ _ _ at_n => before at_n)
        rw [position_congr (x := { x with fd := some s.process.table.lowest, stage := .opening })
          (fun n file => lookup d n ((hs.orderly.keeps d x found).1 n file)) (fun n k _ at_n => before at_n)] at shown
        have same : s.handles.handle d = some ⟨name.1, name.2, s.position x⟩ := Storage.handle_known found known
        have kept : (⟨name.1, name.2, s.position { x with fd := some s.process.table.lowest, stage := .opening }⟩ :
            Handle φ) = ⟨name.1, name.2, s.position x⟩ := rfl
        rw [kept, ← same, Function.update_eq_self] at shown
        rw [Storage.handles_eq shown]
        simp only [Handles.step, same, Option.map_some]
        rfl

/-- `assign` takes the number over, or closes it. -/
theorem Storage.Kept.assign (hs : s.Kept) {ok : Bool} (found : s.process.devices[d]? = some x)
    (opening : x.stage = .opening) (orderly : Orderly (FILEDevice.assign d x ok s.process)) :
    Storage.Kept { s with process := FILEDevice.assign d x ok s.process } ∧
      s.handles.step (.device (.assign d ok)) =
        some ({ s with process := FILEDevice.assign d x ok s.process } : Storage φ α).handles := by
  obtain ⟨_, held⟩ := hs.orderly.keeps d x found
  obtain ⟨n, fd, owns, other⟩ := by simpa [opening] using held
  cases ok with
  | true =>
    obtain ⟨kept, name, known, shown, eq⟩ := hs.stays (y := { x with file := x.fd, stage := .ready }) orderly rfl rfl
      found (by simp) (fun _ _ _ _ => rfl)
    have start : ({ s with process := FILEDevice.assign d x true s.process } : Storage φ α).position
        { x with file := x.fd, stage := .ready } = some 0 := by
      obtain ⟨k, at_n, opened⟩ := owns
      obtain ⟨_, e, _, here, _⟩ := hs.own k d opened
      have fresh := hs.fresh d x n k e found opening fd at_n here
      change (x.fd.bind fun n => (s.process.table.lookup n).bind _) = some 0
      simp only [fd, Option.bind_some, at_n, here, Option.map_some, fresh]
    rw [start] at eq
    refine ⟨kept, ?_⟩
    simp only [Handles.step, shown, Option.map_some]
    exact congrArg some eq.symm
  | false =>
    have eq : FILEDevice.assign d x false s.process =
        (s.process.sysClose d (some n)).put d { x with fd := none, stage := .ready } := by
      simp [FILEDevice.assign, fd]
    rw [eq] at orderly ⊢
    obtain ⟨kept, name, known, shown, put⟩ := hs.closes owns orderly found (by simp)
    have same : ({ s with process := (s.process.sysClose d (some n)).put d { x with fd := none, stage := .ready } } :
        Storage φ α).position { x with fd := none, stage := .ready } = s.position x := by
      refine position_congr (x := { x with fd := none, stage := .ready }) (fun m file => ?_) (fun _ _ _ _ => rfl)
      refine lookup_sysClose owns ?_
      rintro rfl
      exact other file
    rw [same, Handles.put_self shown] at put
    exact ⟨kept, congrArg some put.symm⟩

theorem Storage.Kept.closeFile (hs : s.Kept) (found : s.process.devices[d]? = some x)
    (orderly : Orderly (FILEDevice.closeFile d x s.process)) :
    Storage.Kept { s with process := FILEDevice.closeFile d x s.process } ∧
      s.handles.step (.device (.closeFile d)) =
        some ({ s with process := FILEDevice.closeFile d x s.process } : Storage φ α).handles := by
  have blank (p : Process) : ({ s with process := p } : Storage φ α).position
      { x with file := none, stage := .closing } = none := rfl
  cases hfile : x.file with
  | none =>
    have eq : FILEDevice.closeFile d x s.process = s.process.put d { x with file := none, stage := .closing } := by
      simp [FILEDevice.closeFile, Process.sysClose, hfile]
    rw [eq] at orderly ⊢
    obtain ⟨kept, name, known, shown, put⟩ := hs.stays (y := { x with file := none, stage := .closing })
      orderly rfl rfl found (by simp) (fun _ _ _ _ => rfl)
    rw [blank] at put
    refine ⟨kept, ?_⟩
    simp only [Handles.step, shown, Option.map_some]
    exact congrArg some put.symm
  | some n =>
    have owns := (hs.orderly.keeps d x found).1 n hfile
    have eq : FILEDevice.closeFile d x s.process =
        (s.process.sysClose d (some n)).put d { x with file := none, stage := .closing } := by
      simp [FILEDevice.closeFile, hfile]
    rw [eq] at orderly ⊢
    obtain ⟨kept, name, known, shown, put⟩ := hs.closes owns orderly found (by simp)
    rw [blank] at put
    refine ⟨kept, ?_⟩
    simp only [Handles.step, shown, Option.map_some]
    exact congrArg some put.symm

/-- The steps of `Open` and of the destructor other than `::open`. -/
theorem Storage.Kept.device (hs : s.Kept) {a : Act} {p : Process} (built : a ≠ .construct)
    (unopened : ∀ d, a ≠ .openFd d true) (step : s.process.step a = some p) :
    Storage.Kept { s with process := p } ∧
      s.handles.step (.device a) = some ({ s with process := p } : Storage φ α).handles := by
  have careful : FILEDevice.Careful s.process a := by
    unfold FILEDevice.Careful
    split
    next d => exact absurd rfl (unopened d)
    next => trivial
  have steps := step_steps step
  have orderly := hs.orderly.step careful steps
  cases steps with
  | construct => exact absurd rfl built
  | @openFd d x ok found ready =>
    cases ok with
    | true => exact absurd rfl (unopened d)
    | false =>
      obtain ⟨kept, name, known, shown, eq⟩ := hs.stays (y := { x with fd := none }) orderly rfl rfl found
        (by rw [ready]; simp) (fun _ _ _ _ => rfl)
      have same : ({ s with process := FILEDevice.openFd d x false s.process } : Storage φ α).position
          { x with fd := none } = s.position x := rfl
      rw [same, Handles.put_self shown] at eq
      exact ⟨kept, congrArg some eq.symm⟩
  | assign ok found opening possible => exact hs.assign found opening orderly
  | closeFile found ready => exact hs.closeFile found orderly
  | @closeFd d x found closing =>
    -- the number has been closed with `file`, and nobody has it any more
    obtain ⟨_, held⟩ := hs.orderly.keeps d x found
    obtain ⟨none, free⟩ := by simpa [closing] using held
    have same : s.process.sysClose d x.fd = s.process := by
      cases fd : x.fd with
      | none => rfl
      | some n => exact sysClose_free (free n fd)
    have eq : FILEDevice.closeFd d x s.process = s.process.put d { x with stage := .gone } := by
      rw [FILEDevice.closeFd, same]
    rw [eq] at orderly ⊢
    obtain ⟨kept, name, known, shown, put⟩ := hs.stays (y := { x with stage := .gone }) orderly rfl rfl found
      (by simp) (fun _ _ _ _ => rfl)
    have blank : ({ s with process := s.process.put d { x with stage := .gone } } : Storage φ α).position
        { x with stage := .gone } = s.position x := by
      simp [Storage.position, none]
    rw [blank, Handles.put_self shown] at put
    exact ⟨kept, congrArg some put.symm⟩

theorem Transfer.apply_place (u : Transfer α) (e : Description φ) (disk : Disk φ α) :
    (u.apply e disk).1.place = e.place ∧ (u.apply e disk).1.writes = e.writes := by
  cases u <;> cases writes : e.writes <;> simp [Transfer.apply, writes]

/-- A transfer goes to the file of its device. -/
theorem Storage.Kept.transfer (hs : s.Kept) {u : Transfer α} (step : s.transfer d u = some t) :
    t.Kept ∧ s.handles.transfer d u = some t.handles := by
  obtain ⟨x, found, step⟩ := Option.bind_eq_some_iff.mp step
  split at step
  next => cases step
  next ready =>
    have ready : x.stage = .ready := by simpa using ready
    obtain ⟨n, file, step⟩ := Option.bind_eq_some_iff.mp step
    obtain ⟨k, there, opened⟩ := (hs.orderly.keeps d x found).1 n file
    obtain ⟨name, e, known, here, place, writes⟩ := hs.own k d opened
    rw [there] at step
    simp only [here, Option.map_some] at step
    obtain rfl := Option.some.inj step
    have bound := (List.getElem?_eq_some_iff.mp here).1
    have inside := (List.getElem?_eq_some_iff.mp found).1
    have position : s.position x = some e.offset := by
      simp [Storage.position, file, there, here]
    have same : (⟨name.1, name.2, e.offset⟩ : Description φ) = e := by
      rw [← place, ← writes]
    obtain ⟨place', writes'⟩ := u.apply_place e s.disk
    refine ⟨⟨hs.orderly, hs.named, ?_, ?_, ?_⟩, ?_⟩
    · rw [List.length_set]
      exact hs.numbered
    · intro i f owner
      obtain ⟨other, g, known', at_i, rest⟩ := hs.own i f owner
      by_cases own : i = k
      · subst own
        obtain rfl := Option.some.inj (at_i.symm.trans here)
        exact ⟨other, _, known', List.getElem?_set_self bound, place'.trans rest.1, writes'.trans rest.2⟩
      · exact ⟨other, g, known', (List.getElem?_set_ne (Ne.symm own)).trans at_i, rest⟩
    · intro f z m i g at_f opening fd at_m at_i
      rcases set_cases at_i with ⟨own, _⟩ | ⟨_, at_i⟩
      · -- the descriptor belongs to a device that is not opening
        obtain ⟨_, held⟩ := hs.orderly.keeps f z at_f
        obtain ⟨m', hm, ⟨i', at_m', owner⟩, _⟩ := by simpa [opening] using held
        obtain rfl : m' = m := Option.some.inj (hm.symm.trans fd)
        obtain rfl : i' = k := by
          rw [at_m'] at at_m
          cases at_m
          exact own
        obtain rfl : d = f := Option.some.inj (opened.symm.trans owner)
        obtain rfl := Option.some.inj (found.symm.trans at_f)
        rw [ready] at opening
        cases opening
      · exact hs.fresh f z m i g at_f opening fd at_m at_i
    · have stays : s.process.devices = s.process.devices.set d x := by
        obtain ⟨bound, rfl⟩ := List.getElem?_eq_some_iff.mp found
        exact (List.set_getElem_self bound).symm
      have shown := hs.handle_update (t := ⟨s.process, s.names, s.descriptions.set k (u.apply e s.disk).1,
        (u.apply e s.disk).2.1, s.results ++ [(d, (u.apply e s.disk).2.2)]⟩) stays rfl inside known
        (fun _ _ _ _ => rfl) (by
          rintro f m i other ⟨i', at_m', owner⟩ at_m
          obtain rfl : i' = i := by simpa using at_m'.symm.trans at_m
          refine List.getElem?_set_ne ?_
          rintro rfl
          exact other (Option.some.inj (owner.symm.trans opened)))
      have moved : (⟨s.process, s.names, s.descriptions.set k (u.apply e s.disk).1, (u.apply e s.disk).2.1,
          s.results ++ [(d, (u.apply e s.disk).2.2)]⟩ : Storage φ α).position x = some (u.apply e s.disk).1.offset := by
        simp [Storage.position, file, there, bound]
      rw [moved] at shown
      rw [Storage.handles_eq shown]
      simp only [Handles.transfer, Storage.handle_known found known, position, Option.bind_some, Option.map_some, same]
      rfl

theorem Transfer.apply_frame (u : Transfer α) (e : Description φ) (disk : Disk φ α) {g : φ} (other : g ≠ e.place) :
    (u.apply e disk).2.1 g = disk g := by
  cases u with
  | read count =>
    simp only [Transfer.apply]
    split <;> rfl
  | write bytes =>
    simp only [Transfer.apply]
    split
    next => exact Disk.put_other other _ _
    next => rfl

theorem Storage.Kept.step (hs : s.Kept) {u : Use φ α} (careful : s.Careful u) (step : s.step u = some t) :
    t.Kept ∧ s.handles.step u = some t.handles := by
  cases u with
  | construct filename writemode =>
    simp only [Storage.step] at step
    obtain ⟨p, hp, rfl⟩ := Option.map_eq_some_iff.mp step
    exact hs.construct filename writemode hp
  | transfer d u => exact hs.transfer step
  | device a =>
    unfold Storage.step at step
    split at step
    next same => cases same
    next => cases step
    next same =>
      cases same
      exact hs.openFile careful step
    next b unbuilt unopened same =>
      cases same
      obtain ⟨p, hp, rfl⟩ := Option.map_eq_some_iff.mp step
      refine hs.device ?_ ?_ hp
      · rintro rfl
        exact unbuilt rfl
      · rintro d rfl
        exact unopened d rfl
    next same => cases same

end Steps

section Stray

/-- The number that a device is given by a careless `::open` is closed under it, and is free again. -/
theorem careless_number {p : Process} {d : Nat} {x : FILEDevice} (found : p.devices[d]? = some x)
    (fresh : x.file = none) (ready : x.stage = .ready) (careless : ¬ FILEDevice.Careful p (.openFd d true)) :
    ∃ e q r y, (FILEDevice.openFd d x true p).step (.assign d true) = some q ∧ q.step (.closeFd e) = some r ∧
      r.table.lowest = p.table.lowest ∧ r.opened.length = p.opened.length + 1 ∧
      r.devices.length = p.devices.length ∧ r.devices[d]? = some y ∧ y.stage = .ready ∧ y.file = some p.table.lowest := by
  simp only [FILEDevice.Careful] at careless
  push Not at careless
  obtain ⟨z, mem, closing, fd⟩ := careless
  obtain ⟨e, at_e⟩ := List.mem_iff_getElem?.mp mem
  have apart : d ≠ e := by
    rintro rfl
    obtain rfl := Option.some.inj (found.symm.trans at_e)
    cases ready.symm.trans closing
  have inside := (List.getElem?_eq_some_iff.mp found).1
  have there : (p.table.allocate (.opened p.opened.length)).lookup p.table.lowest = some (.opened p.opened.length) :=
    (Table.lookup_allocate ..).trans (if_pos rfl)
  let y : FILEDevice := { x with fd := some p.table.lowest, stage := .opening }
  have here : (FILEDevice.openFd d x true p).devices[d]? = some y := List.getElem?_set_self inside
  have first : (FILEDevice.openFd d x true p).step (.assign d true) =
      some (FILEDevice.assign d y true (FILEDevice.openFd d x true p)) := by
    simp [Process.step, Process.atStage, here, y, fresh]
  have there' : (FILEDevice.assign d y true (FILEDevice.openFd d x true p)).devices[e]? = some z :=
    (List.getElem?_set_ne apart).trans ((List.getElem?_set_ne apart).trans at_e)
  have second : (FILEDevice.assign d y true (FILEDevice.openFd d x true p)).step (.closeFd e) =
      some (FILEDevice.closeFd e z (FILEDevice.assign d y true (FILEDevice.openFd d x true p))) := by
    simp [Process.step, Process.atStage, there', closing]
  have closed : FILEDevice.closeFd e z (FILEDevice.assign d y true (FILEDevice.openFd d x true p)) =
      ({ FILEDevice.assign d y true (FILEDevice.openFd d x true p) with
        table := (p.table.allocate (.opened p.opened.length)).release p.table.lowest
        closed := p.closed ++ [(e, .opened p.opened.length)] } : Process).put e { z with stage := .gone } := by
    rw [FILEDevice.closeFd, fd]
    exact congrArg (Process.put e _) (sysClose_owned there)
  refine ⟨e, _, _, { y with file := y.fd, stage := .ready }, first, second, ?_, ?_, ?_, ?_, rfl, rfl⟩
  · rw [closed]
    exact Table.lowest_release_allocate _ _
  · rw [closed]
    exact List.length_append
  · rw [closed]
    simp [Process.put, FILEDevice.assign, FILEDevice.openFd, Process.sysOpen]
  · rw [closed]
    refine (List.getElem?_set_ne (Ne.symm apart)).trans (List.getElem?_set_self ?_)
    exact (List.getElem?_eq_some_iff.mp here).1

variable [DecidableEq φ] {s t : Storage φ α} {d : Nat} {x : FILEDevice}

theorem step_device {p q : Process} {a : Act} (built : a ≠ .construct) (unopened : ∀ d, a ≠ .openFd d true)
    (step : p.step a = some q) (names : List (φ × Bool)) (descriptions : List (Description φ)) (disk : Disk φ α)
    (results : List (Nat × Result α)) : Storage.step ⟨p, names, descriptions, disk, results⟩ (.device a) =
      some ⟨q, names, descriptions, disk, results⟩ := by
  cases a with
  | construct => exact absurd rfl built
  | openFd d ok =>
    cases ok with
    | true => exact absurd rfl (unopened d)
    | false => simp [Storage.step, step]
  | assign d ok | closeFile d | closeFd d => simp [Storage.step, step]

theorem transfer_through {n k : Nat} {e : Description φ} (found : s.process.devices[d]? = some x)
    (ready : x.stage = .ready) (file : x.file = some n) (there : s.process.table.lookup n = some (.opened k))
    (here : s.descriptions[k]? = some e) (u : Transfer α) :
    ∃ t, s.step (.transfer d u) = some t ∧ t.disk = (u.apply e s.disk).2.1 := by
  refine ⟨{ s with
    descriptions := s.descriptions.set k (u.apply e s.disk).1
    disk := (u.apply e s.disk).2.1
    results := s.results ++ [(d, (u.apply e s.disk).2.2)] }, ?_, rfl⟩
  simp [Storage.step, Storage.transfer, found, ready, file, there, here]

/-- After a careless `::open` what a device writes can come to be written into any file. -/
theorem Storage.Kept.strays (hs : s.Kept) {f : φ} (known : s.names[d]? = some (f, true))
    (found : s.process.devices[d]? = some x) (fresh : x.file = none)
    (step : s.step (.device (.openFd d true)) = some t) (careless : ¬ s.Careful (.device (.openFd d true)))
    (g : φ) (bytes : List α) :
    ∃ v w, Reaches Storage.step Free t v ∧ v.step (.transfer d (.write bytes)) = some w ∧
      w.disk = v.disk.put g (pwrite ((v.disk g).getD []) 0 bytes) := by
  obtain ⟨name, known', step⟩ := Option.bind_eq_some_iff.mp step
  obtain rfl : name = (f, true) := Option.some.inj (known'.symm.trans known)
  rw [if_neg (by simp)] at step
  obtain ⟨p, hp, rfl⟩ := Option.map_eq_some_iff.mp step
  cases step_steps hp with
  | @openFd _ x' ok found' ready =>
    obtain rfl := Option.some.inj (found'.symm.trans found)
    obtain ⟨e, q, r, y, first, second, lowest, opened, count, device, still, file⟩ :=
      careless_number found fresh ready careless
    let u : Process := { r with devices := r.devices ++ [{}] }
    let w : Process := FILEDevice.openFd r.devices.length {} true u
    have third : u.step (.openFd r.devices.length true) = some w := by
      simp [Process.step, Process.atStage, u, w]
    have last : (s.names ++ [(g, true)])[r.devices.length]? = some (g, true) := by
      rw [count, ← hs.named, List.getElem?_concat_length]
    have small := (List.getElem?_eq_some_iff.mp device).1
    have here : w.devices[d]? = some y :=
      (List.getElem?_set_ne (Nat.ne_of_gt small)).trans ((List.getElem?_append_left small).trans device)
    have number : w.table.lookup s.process.table.lowest = some (.opened (s.process.opened.length + 1)) := by
      rw [← lowest, ← opened]
      exact (Table.lookup_allocate ..).trans (if_pos rfl)
    have description : (s.descriptions ++ [⟨f, true, 0⟩] ++ [⟨g, true, 0⟩])[s.process.opened.length + 1]? =
        some (⟨g, true, 0⟩ : Description φ) := by
      have length : (s.descriptions ++ [(⟨f, true, 0⟩ : Description φ)]).length = s.process.opened.length + 1 := by
        simp [hs.numbered]
      rw [← length, List.getElem?_concat_length]
    have assigned := step_device (by simp) (by simp) first s.names (s.descriptions ++ [⟨f, true, 0⟩])
      (s.disk.create f) s.results
    have closed := step_device (by simp) (by simp) second s.names (s.descriptions ++ [⟨f, true, 0⟩])
      (s.disk.create f) s.results
    have constructed : Storage.step ⟨r, s.names, s.descriptions ++ [⟨f, true, 0⟩], s.disk.create f, s.results⟩
        (.construct g true) = some ⟨u, s.names ++ [(g, true)], s.descriptions ++ [⟨f, true, 0⟩], s.disk.create f,
          s.results⟩ := rfl
    have reopened : Storage.step ⟨u, s.names ++ [(g, true)], s.descriptions ++ [⟨f, true, 0⟩], s.disk.create f,
        s.results⟩ (.device (.openFd r.devices.length true)) = some ⟨w, s.names ++ [(g, true)],
          s.descriptions ++ [⟨f, true, 0⟩] ++ [⟨g, true, 0⟩], (s.disk.create f).create g, s.results⟩ := by
      simp only [Storage.step, Storage.openFile, last, third, Option.bind_some, Option.map_some]
      rfl
    obtain ⟨v, written, disk⟩ := transfer_through (s := ⟨w, s.names ++ [(g, true)],
      s.descriptions ++ [⟨f, true, 0⟩] ++ [⟨g, true, 0⟩], (s.disk.create f).create g, s.results⟩)
      here still file number description (.write bytes)
    exact ⟨_, v, .next (.next (.next (.next .start trivial assigned) trivial closed) trivial constructed) trivial
      reopened, written, disk⟩

/-- While no number is opened again between the two closes of a destructor, devices are as if each
had its file for itself: a transfer goes to the file that the device was constructed with, at the
device's own position. The first other `::open` of a device that writes leads to a run in which its
bytes are written into whatever file. -/
theorem transfers_keep_to_own_file {taken : List Bool} {disk : Disk φ α}
    (reach : Reaches Storage.step Storage.Careful (Storage.begun taken disk) s) :
    Reaches Handles.step Free (Handles.begun disk) s.handles ∧
    (∀ d u t, s.step (.transfer d u) = some t → ∃ name, s.names[d]? = some name ∧
      (∀ g, g ≠ name.1 → t.disk g = s.disk g) ∧ ∃ p, s.handles.handle d = some ⟨name.1, name.2, some p⟩ ∧
        t.results = s.results ++ [(d, (u.apply ⟨name.1, name.2, p⟩ s.disk).2.2)]) ∧
    ∀ d f x t, s.names[d]? = some (f, true) → s.process.devices[d]? = some x → x.file = none →
      s.step (.device (.openFd d true)) = some t → ¬ s.Careful (.device (.openFd d true)) →
      ∀ g bytes, ∃ v w, Reaches Storage.step Free t v ∧ v.step (.transfer d (.write bytes)) = some w ∧
        w.disk = v.disk.put g (pwrite ((v.disk g).getD []) 0 bytes) := by
  have both : s.Kept ∧ Reaches Handles.step Free (Handles.begun disk) s.handles := by
    induction reach with
    | start =>
      refine ⟨kept_begun taken disk, ?_⟩
      have same : (Storage.begun taken disk).handles = Handles.begun disk := rfl
      rw [same]
      exact .start
    | next _ careful step ih =>
      obtain ⟨kept, simulated⟩ := ih.1.step careful step
      exact ⟨kept, ih.2.next trivial simulated⟩
  obtain ⟨kept, simulated⟩ := both
  refine ⟨simulated, ?_, fun d f x t known found fresh step careless => kept.strays known found fresh step careless⟩
  intro d u t step
  obtain ⟨_, shown⟩ := kept.transfer step
  obtain ⟨z, known, shown⟩ := Option.bind_eq_some_iff.mp shown
  obtain ⟨p, position, shown⟩ := Option.map_eq_some_iff.mp shown
  obtain ⟨name, named, known'⟩ := Option.bind_eq_some_iff.mp known
  obtain ⟨x, found, rfl⟩ := Option.map_eq_some_iff.mp known'
  refine ⟨name, named, fun g other => ?_, p, ?_, ?_⟩
  · have after := congrArg Handles.disk shown
    exact (congrFun after g).symm.trans (u.apply_frame ⟨name.1, name.2, p⟩ s.disk other)
  · rw [known, ← position]
  · exact (congrArg Handles.results shown).symm

end Stray

/-- A file is written, and read by another device before the first one is gone. -/
def writtenAndRead : List (Use Nat Char) :=
  [.construct 7 true, .device (.openFd 0 true), .device (.assign 0 true), .transfer 0 (.write ['a', 'b']),
    .construct 7 false, .device (.openFd 1 true), .device (.closeFile 0), .device (.assign 1 true),
    .transfer 1 (.read 1), .device (.closeFd 0), .transfer 1 (.read 5)]

theorem transfers_keep_to_own_file_read : ∃ s : Storage Nat Char,
    Reaches Storage.step Storage.Careful (Storage.begun [true, true, true] fun _ => none) s ∧
    s.results = [(0, .wrote 2), (1, .read ['a']), (1, .read ['b'])] ∧
    Reaches Handles.step Free (Handles.begun fun _ => none) s.handles := by
  obtain ⟨s, reach, results⟩ := reaches_of_any_guarded Storage.step Storage.Careful
    (Storage.begun [true, true, true] fun _ => none) writtenAndRead
    (fun s => s.results = [(0, .wrote 2), (1, .read ['a']), (1, .read ['b'])]) (by decide)
  exact ⟨s, reach, of_decide_eq_true results, (transfers_keep_to_own_file reach).1⟩

end FILEDevice

end AsyncIOManager
