import AsyncIOManager.MNNSaver
import AsyncIOManager.Paths

namespace AsyncIOManager

open Reactor Files Paths

/-- `operator/` of `std::filesystem::path`. -/
def slash (p q : Str) : Str :=
  if q.head? = some '/' then q
  else if filename p = [] then p ++ q
  else p ++ '/' :: q

namespace IPFSSaver

def tempDirPath : Str := "ipfs_temp_publish".toList

def tempDirectory : Place Str := place tempDirPath

/-- The name of a temporary file, after the clock. -/
def tempName (now : Nat) : Str := "ipfs_temp_".toList ++ Nat.toDigits 10 now

/-- The regular files of the process, by the normal forms of their paths, and whether the
temporary directory exists. -/
structure Tree where
  disk : Disk (Place Str) Char
  present : Bool
  blank : present = false → ∀ x, tempDirectory.Inside x → disk x = none

namespace Tree

/-- A file can only be in a directory that exists. -/
def put (x : Place Str) (content : Str) (t : Tree) : Tree where
  disk := t.disk.put x content
  present := t.present || decide (tempDirectory.Inside x)
  blank absent y inside := by
    simp only [Bool.or_eq_false_iff, decide_eq_false_iff_not] at absent
    have other : y ≠ x := by
      rintro rfl
      exact absent.2 inside
    rw [Disk.put_other other]
    exact t.blank absent.1 y inside

def erase (p : Place Str → Bool) (t : Tree) : Tree where
  disk := t.disk.erase p
  present := t.present
  blank absent y inside := by
    simp [Disk.erase, t.blank absent y inside]

def removeAll (t : Tree) : Tree where
  disk := t.disk.erase fun x => decide (tempDirectory.Inside x)
  present := false
  blank _ y inside := by simp [Disk.erase, inside]

def createDirectories (t : Tree) : Tree where
  disk := t.disk
  present := true
  blank absent := by cases absent

end Tree

/-- What a save creates and removes: one temporary file, or everything in the directory. -/
inductive Area
  | file (x : Place Str)
  | directory
deriving DecidableEq, Repr

namespace Area

def has : Area → Place Str → Bool
  | file y, x => x = y
  | directory, x => decide (tempDirectory.Inside x)

/-- `remove` or `remove_all`. -/
def remove (a : Area) (t : Tree) : Tree :=
  match a with
  | file x => t.erase (file x).has
  | directory => t.removeAll

/-- What is left when `remove_all` throws after it has removed some files. -/
def removeSome (a : Area) (removed : List (Place Str)) (t : Tree) : Tree :=
  t.erase fun x => a.has x && x ∈ removed

end Area

inductive Exit
  | returned
  | threw
deriving DecidableEq, Repr

/-- Where a save is: the call that comes next, with the files of the payload that are left. -/
inductive Stage
  | tempDirectoryPath
  | tempFile
  | tempWrite
  | publishFile
  | existing
  | removeAll
  | createDirectories
  | parentPath (file content : Str) (rest : List (Str × Str))
  | ofs (file content : Str) (rest : List (Str × Str))
  | write (file content : Str) (rest : List (Str × Str))
  | publishDirectory
  | publishing
  | catching
  | finished
deriving DecidableEq, Repr

/-- The loop comes to the next file. The stream takes its path as a C string. -/
def Stage.loop : List (Str × Str) → Stage
  | [] => publishDirectory
  | (path, content) :: rest => parentPath (cStr (slash tempDirPath path)) content rest

/-- One call of `SaveASync`. `tempDir` is the directory for temporary files, `staged` are the
files that the call has opened, with what it has written to them, and `root` is what the
publishing has last read. -/
structure Save where
  data : Payload := ⟨[], []⟩
  tempDir : Str := []
  tempFilePath : Str := []
  given : Option Str := none
  saveLocation : Option Str := none
  stage : Stage
  staged : List (Str × Str) := []
  root : Option (Disk (Place Str) Char) := none
  posts : Nat := 0
  exit : Option Exit := none

/-- What `PublishFile` and `PublishDirectory` call back with: an error, or a CID, which has a
text or not. -/
inductive Published
  | failure
  | success (cidString : Option Str)
deriving DecidableEq, Repr

inductive Removal
  | done
  | throws (removed : List (Place Str))
deriving DecidableEq, Repr

/-- What the call of a stage does. `writes n` is a write of which only `n` characters arrive. -/
inductive Act
  | tempDirectoryPath (dir : Str) (now : Nat)
  | succeeds
  | fails
  | throws
  | writes (n : Nat)
  | removes (r : Removal)
  | reads
  | returns
  | callsBack (result : Published) (r : Removal)
deriving DecidableEq, Repr

namespace Save

def files (s : Save) : List (Str × Str) := s.data.first.zip s.data.second

def single (s : Save) : Bool := s.data.first.length = 1

def content (s : Save) : Str := s.data.second.headD []

def area (s : Save) : Area := if s.single then .file (place s.tempFilePath) else .directory

def goto (stage : Stage) (s : Save) : Save := { s with stage }

def post (s : Save) : Save := { s with posts := s.posts + 1 }

def leave (e : Exit) (s : Save) : Save := { s with exit := some e, stage := .finished }

def opened (file : Str) (s : Save) : Save := { s with staged := s.staged ++ [(file, [])] }

/-- What has been written to the file that was opened last. -/
def wrote (file bytes : Str) (s : Save) : Save := { s with staged := s.staged.dropLast ++ [(file, bytes)] }

def named (dir : Str) (now : Nat) (s : Save) : Save :=
  { s with tempDir := dir, tempFilePath := slash dir (tempName now), stage := .tempFile }

/-- The callback of the publishing, up to its last line. -/
def report (result : Published) (s : Save) : Save :=
  match result with
  | .failure => s
  | .success none => s
  | .success (some cidString) =>
    { s with saveLocation := s.saveLocation.map fun _ => "ipfs://".toList ++ cidString }

/-- The callback runs in the call of `Publish*` or later. Only there an exception of the
clean-up is caught. -/
def callback (result : Published) (r : Removal) (s : Save) (t : Tree) : Save × Tree :=
  match r with
  | .done => ((s.report result).post.goto .finished, s.area.remove t)
  | .throws removed =>
    (s.goto (if s.exit = none then .catching else .finished), s.area.removeSome removed t)

def succeed (s : Save) (t : Tree) : Option (Save × Tree) :=
  match s.stage with
  | .tempFile =>
    if MNNSaver.namesFile s.tempFilePath then
      some ((s.opened s.tempFilePath).goto .tempWrite, t.put (place s.tempFilePath) [])
    else none
  | .existing => some (s.goto (if t.present then .removeAll else .createDirectories), t)
  | .createDirectories => some (s.goto (.loop s.files), t.createDirectories)
  | .parentPath file content rest =>
    some (s.goto (.ofs file content rest), if file.head? = some '/' then t else t.createDirectories)
  | .ofs file content rest =>
    if MNNSaver.namesFile file then
      some ((s.opened file).goto (.write file content rest), t.put (place file) [])
    else none
  | .publishFile => some (s.goto .publishing, t)
  | .publishDirectory => some (s.goto .publishing, t)
  | _ => none

/-- The stream is not open. -/
def fail (s : Save) (t : Tree) : Option (Save × Tree) :=
  match s.stage with
  | .tempFile => some (s.post.leave .returned, t)
  | .ofs _ _ rest => some (s.goto (.loop rest), t)
  | _ => none

/-- The directory for temporary files is asked for before the `try`. -/
def throw (s : Save) (t : Tree) : Option (Save × Tree) :=
  match s.stage with
  | .tempDirectoryPath => some (s.leave .threw, t)
  | .publishing => if s.exit = none then some (s.goto .catching, t) else none
  | .removeAll => none
  | .catching => none
  | .finished => none
  | _ => some (s.goto .catching, t)

def write (n : Nat) (s : Save) (t : Tree) : Option (Save × Tree) :=
  match s.stage with
  | .tempWrite =>
    if n ≤ s.content.length then
      some ((s.wrote s.tempFilePath (s.content.take n)).goto .publishFile,
        t.put (place s.tempFilePath) (s.content.take n))
    else none
  | .write file content rest =>
    if n ≤ content.length then
      some ((s.wrote file (content.take n)).goto (.loop rest), t.put (place file) (content.take n))
    else none
  | _ => none

def remove (r : Removal) (s : Save) (t : Tree) : Option (Save × Tree) :=
  match s.stage, r with
  | .removeAll, .done => some (s.goto .createDirectories, s.area.remove t)
  | .removeAll, .throws removed => some (s.goto .catching, s.area.removeSome removed t)
  | .catching, .done => some (s.post.leave .returned, s.area.remove t)
  | .catching, .throws removed => some (s.leave .threw, s.area.removeSome removed t)
  | _, _ => none

def step (a : Act) (s : Save) (t : Tree) : Option (Save × Tree) :=
  match a with
  -- The directory comes from the environment, where a text ends before a NUL.
  | .tempDirectoryPath dir now =>
    if s.stage = .tempDirectoryPath ∧ nul ∉ dir then some (s.named dir now, t) else none
  | .succeeds => s.succeed t
  | .fails => s.fail t
  | .throws => s.throw t
  | .writes n => s.write n t
  | .removes r => s.remove r t
  | .reads =>
    if s.stage = .publishing then some ({ s with root := some (t.disk.within s.area.has) }, t) else none
  | .returns =>
    if (s.stage = .publishing ∨ s.stage = .finished) ∧ s.exit = none then
      some ({ s with exit := some .returned }, t)
    else none
  | .callsBack result r =>
    if s.stage = .publishing ∧ (result = .failure ∨ s.root.isSome) then some (s.callback result r t)
    else none

end Save

/-- A save that is over before it has begun. -/
def refused (saveLocation : Option Str) : Save :=
  { given := saveLocation, saveLocation, posts := 1, exit := some .returned, stage := .finished }

/-- The state in which a save starts. The name of the destination is not looked at. -/
def saveASync (data : ResultType) (bitswap : Bool) (saveLocation : Option Str) : Save :=
  match data with
  | .failure _ => refused saveLocation
  | .success none => refused saveLocation
  | .success (some data) =>
    if data.first = [] then refused saveLocation
    else if !bitswap then refused saveLocation
    else if data.first.length ≠ data.second.length then refused saveLocation
    else
      { data, given := saveLocation, saveLocation
        stage := if data.first.length = 1 then .tempDirectoryPath else .existing }

/-- The saves of a process and the files they share. -/
structure Process where
  saves : List Save := []
  tree : Tree

inductive Event
  | saveASync (data : ResultType) (bitswap : Bool) (saveLocation : Option Str)
  | step (i : Nat) (a : Act)
deriving DecidableEq, Repr

def Process.step (p : Process) : Event → Option Process
  | .saveASync data bitswap saveLocation =>
    some { p with saves := p.saves ++ [IPFSSaver.saveASync data bitswap saveLocation] }
  | .step i a =>
    match p.saves[i]? with
    | none => none
    | some s => (s.step a p.tree).map fun next => { saves := p.saves.set i next.1, tree := next.2 }

end IPFSSaver

end AsyncIOManager
