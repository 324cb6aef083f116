import AsyncIOManager.PieceStore
import AsyncIOManager.FileExtension
import AsyncIOManager.MNNCompletion
import AsyncIOManager.MNNLoader

namespace AsyncIOManager

open Reactor Files

/-- What a `shared_ptr<void>` leads to: a string, or the characters of a literal. -/
inductive Data
  | string (s : Str)
  | literal (s : Str)
deriving DecidableEq, Repr

/-- What a synchronous load meets: whether the path is that of a directory, and whether a stream
can be opened. -/
structure Look where
  directory : Bool := false
  opened : Bool := true
deriving DecidableEq, Repr

/-- `file` is what the file holds, if there is one. -/
def MNNLoader.loadFile (file : Option Str) (look : Look) : Except Str Data :=
  if file = none ∧ look.directory = false then .error "File was not exist in system".toList
  else if look.opened = false then .error "Can not open file".toList
  else .ok (.string (file.getD []))

def HTTPLoader.loadFile (_filename : Str) : Except Str Data :=
  .ok (.literal "Inside the HTTPLoader::LoadFile Function".toList)

def IPFSLoader.loadFile (_filename : Str) : Except Str Data := .ok (.string "init".toList)

/-- How the files are left, or the text of the exception. Nothing is promised of data that is not a string. -/
def MNNSaver.saveFile {φ : Type} [DecidableEq φ] (target : Str → φ) (opened : Bool) (filename : Str)
    (data : Option Data) (disk : Disk φ Char) : Option (Except Str (Disk φ Char)) :=
  match data with
  | none => some (.error "Can not save with null data".toList)
  | some data =>
    if opened = false then some (.error "Can not create file for save".toList)
    else if namesFile filename = false then none
    else
      match data with
      | .string fileContent => some (.ok (disk.put (target filename) fileContent))
      | .literal _ => none

namespace FileManager

variable {φ : Type}

/-- What a path finds on a disk. -/
def found (target : Str → φ) (disk : Disk φ Char) (filename : Str) : Option Str :=
  if MNNSaver.namesFile filename then disk (target filename) else none

/-- The loaders that `InitializeSingletons` registers. -/
def registry (target : Str → φ) (parsers : Str → Option (Data → Except Str Data)) (look : Look)
    (disk : Disk φ Char) : Registry Data where
  loaders pre :=
    if pre = "file".toList then some fun filename => MNNLoader.loadFile (found target disk filename) look
    else if pre = "https".toList then some HTTPLoader.loadFile
    else if pre = "ipfs".toList then some IPFSLoader.loadFile
    else none
  parsers

variable [DecidableEq φ]

/-- The savers that `InitializeSingletons` registers. What is saved by `sftp` is on no disk here. -/
def savers (target : Str → φ) (opened : Bool) (pre : Str) :
    Option (Str → Option Data → Disk φ Char → Option (Except Str (Disk φ Char))) :=
  if pre = "file".toList ∨ pre = "mnn".toList then some (MNNSaver.saveFile target opened)
  else if pre = "ipfs".toList then some fun _ _ disk => some (.ok disk)
  else if pre = "sftp".toList then some fun _ _ _ => none
  else none

def saveFile (target : Str → φ) (opened : Bool) (url : Str) (data : Option Data) (disk : Disk φ Char) :
    Option (Except Str (Disk φ Char)) :=
  let o := (getURLComponents url).2
  match savers target opened o.pre with
  | none => some (.error ("No saver registered for prefix ".toList ++ o.pre))
  | some saver => saver o.base data disk

end FileManager

namespace LocalStore

/-- A call that returns when it is done. -/
inductive Call
  | saveFile (url : Str) (data : Option Data) (opened : Bool)
  | loadFile (url : Str) (parse : Bool) (look : Look)
deriving DecidableEq, Repr

/-- A load with what it has read. -/
structure Load where
  filename : Str
  reading : MNNLoader.Reading
  buffer : Str := []
deriving DecidableEq, Repr

/-- The files, the saves and loads that go on together, and what calls have returned. -/
structure Store (φ : Type) where
  disk : Disk φ Char
  saves : List (MNNSaver.Saving φ) := []
  loads : List Load := []
  returned : List (Except Str (Option Data)) := []

inductive Act
  | saveASync (url : Str) (data : ResultType) (nullData : Bool) (uuid : Str) (saveLocation : Option Str)
  | save (i : Nat) (l : Label MNNSaver.Ec Unit MNNSaver.Act)
  | loadASync (url : Str) (parse save opened : Bool)
  | read (i n : Nat)
  | finish (i : Nat) (e : MNNLoader.Ec)
  | report (i : Nat)
  | call (c : Call)
deriving DecidableEq, Repr

section Model

variable {φ : Type} [DecidableEq φ] (target : Str → φ) (parsers : Str → Option (Data → Except Str Data))

def Call.run (disk : Disk φ Char) : Call → Option (Disk φ Char × Except Str (Option Data))
  | .saveFile url data opened => (FileManager.saveFile target opened url data disk).map fun r =>
      match r with
      | .ok after => (after, .ok none)
      | .error e => (disk, .error e)
  | .loadFile url parse look =>
      some (disk, (FileManager.loadFile (FileManager.registry target parsers look disk) url parse).map some)

def begun (disk : Disk φ Char) : Store φ := { disk }

/-- All saves write to the one disk, and all loads read from it. -/
def Store.step (s : Store φ) : Act → Option (Store φ)
  | .saveASync url data nullData uuid saveLocation =>
    let o := (getURLComponents url).2
    if o.pre = "file".toList ∨ o.pre = "mnn".toList then
      some { s with saves := s.saves ++ [MNNSaver.saveASync o.base data nullData uuid saveLocation s.disk] }
    else none
  | .save i l => s.saves[i]?.bind fun x =>
      ((MNNSaver.machine target).step (x.modify fun m => { m with disk := s.disk }) l).map fun y =>
        { s with disk := y.state.disk, saves := s.saves.set i y }
  | .loadASync url parse save opened =>
    let o := (getURLComponents url).2
    if o.pre ≠ "file".toList then none
    else if opened = true ∧ MNNSaver.namesFile o.base = true ∧ s.disk (target o.base) = none then none
    else some { s with
      loads := s.loads ++ [{ filename := o.base, reading := MNNLoader.loadASync o.base parse save opened }] }
  | .read i n => s.loads[i]?.bind fun x =>
      match x.reading.pool with
      | [⟨.read _ _ _, none⟩] => (FileManager.found target s.disk x.filename).map fun content =>
          { s with loads := s.loads.set i { x with buffer := x.buffer ++ (content.drop x.buffer.length).take n } }
      | _ => none
  | .finish i e => s.loads[i]?.bind fun x =>
      if e = .eof ∧ (FileManager.found target s.disk x.filename).any (fun content => x.buffer.length < content.length)
      then none
      else (MNNLoader.machine.step x.reading (.finish 0 e)).map fun reading =>
        { s with loads := s.loads.set i { x with reading } }
  | .report i => s.loads[i]?.bind fun x => (MNNLoader.machine.step x.reading (.run 0 x.buffer)).map fun reading =>
      { s with loads := s.loads.set i { x with reading } }
  | .call c => (c.run target parsers s.disk).map fun r =>
      { s with disk := r.1, returned := s.returned ++ [r.2] }

/-- The writes of a save that its loop has started and that are not done. -/
def writing (x : Entry MNNSaver.Handler MNNSaver.Ec) : List (Task φ Char) :=
  match x with
  | ⟨.write file content written, none⟩ => [.write (target file) content written]
  | _ => []

/-- The read of a load that is not done. -/
def reading (buffer : Str) (x : Entry MNNLoader.Handler MNNLoader.Ec) : List (Task φ Char) :=
  match x with
  | ⟨.read filename _ _, none⟩ => if MNNSaver.namesFile filename then [.read (target filename) buffer] else []
  | _ => []

def Store.tasks (s : Store φ) : List (Task φ Char) :=
  (s.saves.flatMap fun x => x.pool.flatMap (writing target)) ++
    s.loads.flatMap fun x => x.reading.pool.flatMap (reading target x.buffer)

/-- The file that a call opens, and whether to write it. -/
def Call.opens : Call → Option (φ × Bool)
  | .saveFile url _ opened =>
    let o := (getURLComponents url).2
    if opened = true ∧ (o.pre = "file".toList ∨ o.pre = "mnn".toList) then some (target o.base, true) else none
  | .loadFile url _ _ =>
    let o := (getURLComponents url).2
    if o.pre = "file".toList then some (target o.base, false) else none

def Store.opens (s : Store φ) : Act → Option (φ × Bool)
  | .save i (.call (.next (.tried stream device))) =>
    if stream || device then
      s.saves[i]?.bind fun x => x.state.todo.head?.map fun path => (target (x.state.filename ++ path), true)
    else none
  | .loadASync url _ _ opened => if opened then some (target (getURLComponents url).2.base, false) else none
  | .call c => c.opens target
  | _ => none

/-- No save comes to the end of its contents before that of its paths. -/
def Act.inRange : Act → Bool
  | .save _ (.call (.next (.beyond _ _))) => false
  | _ => true

/-- No file is opened that is being written, and none to write it that is being read. -/
def Store.Careful (s : Store φ) (a : Act) : Prop :=
  a.inRange = true ∧ ∀ o ∈ s.opens target a, ∀ x ∈ s.tasks target, x.file = o.1 → x.writes = false ∧ o.2 = false

instance (s : Store φ) (a : Act) : Decidable (s.Careful target a) := by
  unfold Store.Careful
  infer_instance

/-- Files that are stored and loaded in one go. -/
structure Plain (φ : Type) where
  disk : Disk φ Char
  answers : List (Nat × Str) := []
  returned : List (Except Str (Option Data)) := []

/-- A store of the first `n` elements of a content, on what the file has held before unless it
has been emptied, the load `i`, or a call. -/
inductive Op (φ : Type)
  | store (f : φ) (truncated : Bool) (content : Str) (n : Nat)
  | load (i : Nat) (f : φ)
  | call (c : Call)
deriving DecidableEq, Repr

def Plain.step (a : Plain φ) : Op φ → Option (Plain φ)
  | .store f truncated content n =>
    some { a with disk := a.disk.put f (overwritten (ground truncated (a.disk f)) content n) }
  | .load i f => (a.disk f).map fun content => { a with answers := a.answers ++ [(i, content)] }
  | .call c => (c.run target parsers a.disk).map fun r =>
      { a with disk := r.1, returned := a.returned ++ [r.2] }

/-- What a step stands for: a write counts when it is done, a load when it meets the end of its file. -/
def Store.does (s : Store φ) (truncated : Bool) : Act → Option (Op φ)
  | .save i (.call (.complete k _)) => s.saves[i]?.bind fun x => x.pool[k]?.bind fun y =>
      match y.handler with
      | .write file content written => some (.store (target file) truncated content written)
      | .handleWrite => none
  | .save i (.call (.next (.tried stream device))) => s.saves[i]?.bind fun x => x.state.todo.head?.bind fun path =>
      if device = true ∨ stream = false then none
      else some (.store (target (x.state.filename ++ path)) stream [] 0)
  | .finish i .eof => s.loads[i]?.map fun x => .load i (target x.filename)
  | .call c => some (.call c)
  | _ => none

end Model

section Lists

variable {β γ : Type} {g : β → List γ} {l : List β} {k : Nat} {x : β}

/-- What the elements of a list have together when one of them is replaced. -/
theorem flatMap_set (hk : l[k]? = some x) :
    ∃ rest, (l.flatMap g).Perm (g x ++ rest) ∧ ∀ y, ((l.set k y).flatMap g).Perm (g y ++ rest) := by
  induction l generalizing k with
  | nil => cases hk
  | cons z l ih =>
    cases k with
    | zero =>
      obtain rfl := Option.some.inj hk
      exact ⟨l.flatMap g, List.Perm.refl _, fun y => List.Perm.refl _⟩
    | succ k =>
      obtain ⟨rest, before, after⟩ := ih hk
      refine ⟨g z ++ rest, ?_, fun y => ?_⟩
      · exact (before.append_left (g z)).trans (List.perm_append_comm_assoc ..)
      · exact ((after y).append_left (g z)).trans (List.perm_append_comm_assoc ..)

end Lists

section Tasks

variable {φ : Type} {target : Str → φ} {s : Store φ} {i : Nat}

theorem tasks_save (target : Str → φ) {x : MNNSaver.Saving φ} (hx : s.saves[i]? = some x) :
    ∃ rest, (s.tasks target).Perm (x.pool.flatMap (writing target) ++ rest) ∧
      ∀ disk (y : MNNSaver.Saving φ), (({ s with disk, saves := s.saves.set i y } : Store φ).tasks target).Perm
        (y.pool.flatMap (writing target) ++ rest) := by
  obtain ⟨rest, before, after⟩ := flatMap_set (g := fun x : MNNSaver.Saving φ => x.pool.flatMap (writing target)) hx
  refine ⟨rest ++ s.loads.flatMap fun x => x.reading.pool.flatMap (reading target x.buffer), ?_, fun disk y => ?_⟩
  · rw [← List.append_assoc]
    exact before.append_right _
  · rw [← List.append_assoc]
    exact (after y).append_right _

/-- What a save does with one entry of its pool. -/
theorem tasks_entry (target : Str → φ) {x : MNNSaver.Saving φ} {k : Nat} {e : Entry MNNSaver.Handler MNNSaver.Ec}
    (hx : s.saves[i]? = some x) (hk : x.pool[k]? = some e) :
    ∃ rest, (s.tasks target).Perm (writing target e ++ rest) ∧ ∀ disk state y,
      (({ s with disk, saves := s.saves.set i ⟨state, x.pool.set k y⟩ } : Store φ).tasks target).Perm
        (writing target y ++ rest) := by
  obtain ⟨others, before, after⟩ := tasks_save target hx
  obtain ⟨rest, own, replaced⟩ := flatMap_set (g := writing target) hk
  refine ⟨rest ++ others, ?_, fun disk state y => ?_⟩
  · rw [← List.append_assoc]
    exact before.trans (own.append_right _)
  · rw [← List.append_assoc]
    exact (after disk ⟨state, x.pool.set k y⟩).trans ((replaced y).append_right _)

/-- A save that starts or finishes no write leaves the tasks as they are. -/
theorem tasks_unchanged {x y : MNNSaver.Saving φ} (hx : s.saves[i]? = some x)
    (same : (y.pool.flatMap (writing target)).Perm (x.pool.flatMap (writing target))) (disk : Disk φ Char) :
    (s.tasks target).Perm (({ s with disk, saves := s.saves.set i y } : Store φ).tasks target) := by
  obtain ⟨rest, before, after⟩ := tasks_save target hx
  exact before.trans ((same.symm.append_right _).trans (after disk y).symm)

theorem tasks_load (target : Str → φ) {x : Load} (hx : s.loads[i]? = some x) :
    ∃ rest, (s.tasks target).Perm (x.reading.pool.flatMap (reading target x.buffer) ++ rest) ∧
      ∀ y : Load, (({ s with loads := s.loads.set i y } : Store φ).tasks target).Perm
        (y.reading.pool.flatMap (reading target y.buffer) ++ rest) := by
  obtain ⟨rest, before, after⟩ :=
    flatMap_set (g := fun x : Load => x.reading.pool.flatMap (reading target x.buffer)) hx
  refine ⟨(s.saves.flatMap fun x => x.pool.flatMap (writing target)) ++ rest, ?_, fun y => ?_⟩
  · exact (before.append_left _).trans (List.perm_append_comm_assoc ..)
  · exact ((after y).append_left _).trans (List.perm_append_comm_assoc ..)

/-- What a load does with the first entry of its pool. -/
theorem tasks_reading (target : Str → φ) {x : Load} {e : Entry MNNLoader.Handler MNNLoader.Ec} (hx : s.loads[i]? = some x)
    (hk : x.reading.pool[0]? = some e) :
    ∃ rest, (s.tasks target).Perm (reading target x.buffer e ++ rest) ∧ ∀ state z,
      (({ s with loads := s.loads.set i { x with reading := ⟨state, x.reading.pool.set 0 z⟩ } } : Store φ).tasks
        target).Perm (reading target x.buffer z ++ rest) := by
  obtain ⟨others, before, after⟩ := tasks_load target hx
  obtain ⟨rest, own, replaced⟩ := flatMap_set (g := reading target x.buffer) hk
  refine ⟨rest ++ others, ?_, fun state z => ?_⟩
  · rw [← List.append_assoc]
    exact before.trans (own.append_right _)
  · rw [← List.append_assoc]
    exact (after { x with reading := ⟨state, x.reading.pool.set 0 z⟩ }).trans ((replaced z).append_right _)

end Tasks

theorem found_congr {φ : Type} {target : Str → φ} {cells disk : Disk φ Char} {filename : Str}
    (same : disk (target filename) = cells (target filename)) :
    FileManager.found target disk filename = FileManager.found target cells filename := by
  rw [FileManager.found, FileManager.found, same]

theorem found_some {φ : Type} {target : Str → φ} {filename content : Str} {disk : Disk φ Char}
    (h : FileManager.found target disk filename = some content) :
    MNNSaver.namesFile filename = true ∧ disk (target filename) = some content := by
  unfold FileManager.found at h
  split at h
  next regular => exact ⟨regular, h⟩
  next => cases h

/-- A load returns the same from two disks that agree on its file. -/
theorem loadFile_congr {φ : Type} {target : Str → φ} {parsers : Str → Option (Data → Except Str Data)}
    {cells disk : Disk φ Char} {url : Str} {look : Look} (parse : Bool)
    (same : (getURLComponents url).2.pre = "file".toList →
      disk (target (getURLComponents url).2.base) = cells (target (getURLComponents url).2.base)) :
    FileManager.loadFile (FileManager.registry target parsers look disk) url parse =
      FileManager.loadFile (FileManager.registry target parsers look cells) url parse := by
  by_cases file : (getURLComponents url).2.pre = "file".toList
  · simp only [FileManager.loadFile, FileManager.registry, if_pos file, found_congr (same file)]
    rfl
  · simp only [FileManager.loadFile, FileManager.registry, if_neg file]
    rfl

section Calls

variable {φ : Type} [DecidableEq φ] {target : Str → φ} {parsers : Str → Option (Data → Except Str Data)}
  {cells disk after : Disk φ Char} {tasks : List (Task φ Char)}

/-- A save throws, writes its file, or does nothing, whatever the files hold. -/
theorem saveFile_cases {opened : Bool} {url : Str} {data : Option Data} {r : Except Str (Disk φ Char)}
    (h : FileManager.saveFile target opened url data disk = some r) :
    (∃ e, r = .error e ∧ ∀ d : Disk φ Char, FileManager.saveFile target opened url data d = some (.error e)) ∨
    (∃ content, (Call.saveFile url data opened).opens target = some (target (getURLComponents url).2.base, true) ∧
      r = .ok (disk.put (target (getURLComponents url).2.base) content) ∧
      ∀ d : Disk φ Char, FileManager.saveFile target opened url data d =
        some (.ok (d.put (target (getURLComponents url).2.base) content))) ∨
    (r = .ok disk ∧ ∀ d : Disk φ Char, FileManager.saveFile target opened url data d = some (.ok d)) := by
  by_cases localFile : (getURLComponents url).2.pre = "file".toList ∨ (getURLComponents url).2.pre = "mnn".toList
  · have saver (d : Disk φ Char) : FileManager.saveFile target opened url data d =
        MNNSaver.saveFile target opened (getURLComponents url).2.base data d := by
      simp only [FileManager.saveFile, FileManager.savers, if_pos localFile]
    rw [saver] at h
    cases data with
    | none => exact .inl ⟨_, (Option.some.inj h).symm, saver⟩
    | some data =>
      cases opened with
      | false => exact .inl ⟨_, (Option.some.inj h).symm, saver⟩
      | true =>
        by_cases unnamed : MNNSaver.namesFile (getURLComponents url).2.base = false
        · simp [MNNSaver.saveFile, unnamed] at h
        · cases data with
          | literal content => simp [MNNSaver.saveFile, unnamed] at h
          | string content =>
            have wrote (d : Disk φ Char) : MNNSaver.saveFile target true (getURLComponents url).2.base
                (some (.string content)) d = some (.ok (d.put (target (getURLComponents url).2.base) content)) := by
              simp [MNNSaver.saveFile, unnamed]
            rw [wrote] at h
            exact .inr (.inl ⟨content, if_pos ⟨rfl, localFile⟩, (Option.some.inj h).symm,
              fun d => (saver d).trans (wrote d)⟩)
  · by_cases ipfs : (getURLComponents url).2.pre = "ipfs".toList
    · have saver (d : Disk φ Char) : FileManager.saveFile target opened url data d = some (.ok d) := by
        simp only [FileManager.saveFile, FileManager.savers, if_neg localFile, if_pos ipfs]
      rw [saver] at h
      exact .inr (.inr ⟨(Option.some.inj h).symm, saver⟩)
    · by_cases sftp : (getURLComponents url).2.pre = "sftp".toList
      · simp only [FileManager.saveFile, FileManager.savers, if_neg localFile, if_neg ipfs, if_pos sftp] at h
        cases h
      · have saver (d : Disk φ Char) : FileManager.saveFile target opened url data d =
            some (.error ("No saver registered for prefix ".toList ++ (getURLComponents url).2.pre)) := by
          simp only [FileManager.saveFile, FileManager.savers, if_neg localFile, if_neg ipfs, if_neg sftp]
        rw [saver] at h
        exact .inl ⟨_, (Option.some.inj h).symm, saver⟩

/-- A call does with the files as they are what it does with the files as they are to be. -/
theorem Call.run_agrees {c : Call} {r : Except Str (Option Data)} (h : Atomic cells disk tasks)
    (careful : ∀ o ∈ c.opens target, ∀ x ∈ tasks, x.file = o.1 → x.writes = false ∧ o.2 = false)
    (run : c.run target parsers disk = some (after, r)) :
    ∃ cells', c.run target parsers cells = some (cells', r) ∧ Atomic cells' after tasks := by
  cases c with
  | loadFile url parse look =>
    obtain ⟨rfl, rfl⟩ := Prod.mk.inj (Option.some.inj run)
    refine ⟨cells, ?_, h⟩
    rw [Call.run, loadFile_congr parse]
    intro file
    have same := h.still (target (getURLComponents url).2.base) fun x hx here =>
      (careful (target (getURLComponents url).2.base, false) (by simp [Call.opens, file]) x hx here).1
    exact same.symm
  | saveFile url data opened =>
    obtain ⟨left, saved, kept⟩ := Option.map_eq_some_iff.mp run
    rcases saveFile_cases saved with ⟨e, rfl, always⟩ | ⟨content, opens, rfl, always⟩ | ⟨rfl, always⟩
    · obtain ⟨rfl, rfl⟩ := Prod.mk.inj kept
      exact ⟨cells, by rw [Call.run, always]; rfl, h⟩
    · obtain ⟨rfl, rfl⟩ := Prod.mk.inj kept
      refine ⟨cells.put (target (getURLComponents url).2.base) content, by rw [Call.run, always]; rfl, ?_⟩
      refine h.put (fun x hx here => ?_) content
      cases (careful _ opens x hx here).2
    · obtain ⟨rfl, rfl⟩ := Prod.mk.inj kept
      exact ⟨cells, by rw [Call.run, always]; rfl, h⟩

end Calls

/-- What has been told of a load is what the load has been answered. -/
structure Answered (answers : List (Nat × Str)) (i : Nat) (x : Load) : Prop where
  delivered : ∀ c ∈ x.reading.state.delivered, ∀ p, c.buffers = .success (some p) →
    ∃ content, (i, content) ∈ answers ∧ p = ⟨[filename x.filename], [content]⟩
  reading : ∀ y ∈ x.reading.pool, ∀ f p q, y.handler = .read f p q →
    f = x.filename ∧ (y.outcome = some .eof → (i, x.buffer) ∈ answers)

/-- The files that are not being written are as they are to be, and what has been returned and
told is what stores and loads in one go give. -/
structure Agrees {φ : Type} (target : Str → φ) (s : Store φ) (a : Plain φ) : Prop where
  atomic : Atomic a.disk s.disk (s.tasks target)
  returned : s.returned = a.returned
  answered : ∀ i x, s.loads[i]? = some x → Answered a.answers i x

namespace Answered

variable {answers more : List (Nat × Str)} {i : Nat} {x : Load}

theorem grows (h : Answered answers i x) (grown : answers ⊆ more) : Answered more i x where
  delivered c hc p success := by
    obtain ⟨content, told, same⟩ := h.delivered c hc p success
    exact ⟨content, grown told, same⟩
  reading y hy f p q own := by
    obtain ⟨same, ended⟩ := h.reading y hy f p q own
    exact ⟨same, fun eof => grown (ended eof)⟩

/-- A load that begins has told nothing, and its read has not ended. -/
theorem begun (answers : List (Nat × Str)) (i : Nat) (base : Str) (parse save opened : Bool) :
    Answered answers i { filename := base, reading := MNNLoader.loadASync base parse save opened } := by
  cases opened with
  | true =>
    refine ⟨fun c hc => (by cases hc), fun y hy f p q own => ?_⟩
    obtain rfl := List.mem_singleton.mp hy
    cases own
    exact ⟨rfl, fun ended => (by cases ended)⟩
  | false =>
    refine ⟨fun c hc => (by cases hc), fun y hy f p q own => ?_⟩
    obtain rfl := List.mem_singleton.mp hy
    cases own

/-- A read that meets the end of its file has been answered. -/
theorem finished (h : Answered answers i x) {p q : Bool} {e : MNNLoader.Ec} (k : Nat)
    (answer : e = .eof → (i, x.buffer) ∈ answers) :
    Answered answers i
      { x with reading := ⟨x.reading.state, x.reading.pool.set k ⟨.read x.filename p q, some e⟩⟩ } where
  delivered := h.delivered
  reading y hy f p' q' own := by
    rcases List.mem_or_eq_of_mem_set hy with old | rfl
    · exact h.reading y old f p' q' own
    · cases own
      exact ⟨rfl, fun eof => answer (Option.some.inj eof)⟩

/-- A handler of a load tells what the load has been answered, and starts nothing. -/
theorem reported (h : Answered answers i x) {k : Nat} {z : MNNLoader.Handler} {e : MNNLoader.Ec}
    {rest : List (Entry MNNLoader.Handler MNNLoader.Ec)} (hk : takeAt x.reading.pool k = some (⟨z, some e⟩, rest)) :
    (z.run e x.buffer { x.reading with pool := rest }).pool = rest ∧
      Answered answers i { x with reading := z.run e x.buffer { x.reading with pool := rest } } := by
  have pool : (z.run e x.buffer { x.reading with pool := rest }).pool = rest := by
    cases z with
    | read f p q => cases e <;> rfl
    | completion err => rfl
  have told (new : ReadCall) (known : ∀ v, new.buffers = .success (some v) →
      ∃ content, (i, content) ∈ answers ∧ v = ⟨[filename x.filename], [content]⟩) :
      ∀ c ∈ x.reading.state.delivered ++ [new], ∀ v, c.buffers = .success (some v) →
        ∃ content, (i, content) ∈ answers ∧ v = ⟨[filename x.filename], [content]⟩ := by
    intro c hc
    rcases List.mem_append.mp hc with old | now
    · exact h.delivered c old
    · obtain rfl := List.mem_singleton.mp now
      exact known
  refine ⟨pool, ?_, fun y hy => ?_⟩
  · cases z with
    | completion err => exact told _ fun v success => (by cases success)
    | read f p q =>
      obtain ⟨rfl, ended⟩ := h.reading _ (takeAt_mem hk) f p q rfl
      cases e with
      | other => exact told _ fun v success => (by cases success)
      | eof =>
        refine told _ fun v success => ?_
        cases success
        exact ⟨x.buffer, ended rfl, rfl⟩
  · rw [pool] at hy
    exact h.reading y (takeAt_rest_mem hk hy)

end Answered

theorem saveASync_idle {φ : Type} (filename : Str) (data : ResultType) (nullData : Bool) (uuid : Str)
    (saveLocation : Option Str) (disk : Disk φ Char) :
    (MNNSaver.saveASync filename data nullData uuid saveLocation disk).pool = [] := by
  cases data with
  | failure e => rfl
  | success data =>
    cases data with
    | none => rfl
    | some p =>
      simp only [MNNSaver.saveASync]
      split
      next => rfl
      next => rfl

section Simulation

variable {φ : Type} {target : Str → φ} {parsers : Str → Option (Data → Except Str Data)} {s t : Store φ}
  {a : Plain φ} {i : Nat} {x y : MNNSaver.Saving φ}

/-- What does not change the files, nor what is in progress, changes nothing. -/
theorem Agrees.unchanged (h : Agrees target s a) (tasks : (s.tasks target).Perm (t.tasks target))
    (disk : t.disk = s.disk) (loads : t.loads = s.loads) (returned : t.returned = s.returned) :
    Agrees target t a := by
  refine ⟨?_, returned.trans h.returned, ?_⟩
  · rw [disk]
    exact h.atomic.perm tasks
  · rw [loads]
    exact h.answered

/-- A file that is opened to be written is no task's. -/
theorem Store.Careful.free {l : Act} {f : φ} (careful : s.Careful target l) (opens : s.opens target l = some (f, true)) :
    ∀ x ∈ s.tasks target, x.file ≠ f := by
  intro x hx same
  cases (careful.2 _ opens x hx same).2

theorem Store.Careful.still {l : Act} {f : φ} (careful : s.Careful target l)
    (opens : s.opens target l = some (f, false)) : ∀ x ∈ s.tasks target, x.file = f → x.writes = false :=
  fun x hx same => (careful.2 _ opens x hx same).1

theorem handler_frame {h : MNNSaver.Handler} {e : MNNSaver.Ec} (run : h.run e () x = some y) :
    y.state.disk = x.state.disk ∧ y.pool = x.pool := by
  have keeps (m : MNNSaver.Save φ) : (MNNSaver.countDown m).disk = m.disk := by
    rw [MNNSaver.countDown_eq]
  cases h with
  | write file content written =>
    obtain rfl := Option.some.inj run
    cases e with
    | success | error => exact ⟨keeps _, rfl⟩
  | handleWrite =>
    obtain rfl := Option.some.inj run
    exact ⟨rfl, rfl⟩

/-- What a pass of the loop of a save opens. -/
theorem opens_next (hx : s.saves[i]? = some x) {path : Str} {todo : List Str} (hp : x.state.todo = path :: todo)
    {stream device : Bool} (some : (stream || device) = true) :
    s.opens target (.save i (.call (.next (.tried stream device)))) =
      Option.some (target (x.state.filename ++ path), true) := by
  rw [Store.opens, if_pos some, hx]
  simp [hp]

theorem does_next (target : Str → φ) (hx : s.saves[i]? = some x) {path : Str} {todo : List Str} (hp : x.state.todo = path :: todo)
    (truncated stream device : Bool) :
    s.does target truncated (.save i (.call (.next (.tried stream device)))) =
      if device = true ∨ stream = false then none
      else some (.store (target (x.state.filename ++ path)) stream [] 0) := by
  rw [Store.does, hx]
  simp [hp]

variable [DecidableEq φ]

/-- What the stream and the device leave of a file. -/
theorem opened_disk (stream : Bool) (file : Str) (m : MNNSaver.Save φ) :
    ((m.streamed target stream file).openDevice target file).disk =
      m.disk.put (target file) (ground stream (m.disk (target file))) := by
  cases stream with
  | true =>
    change (m.disk.put (target file) []).create (target file) = _
    rw [Disk.create, Disk.put_self, Disk.put_put]
    rfl
  | false => rfl

/-- A step of the store stands for what `does` tells. -/
def Stands (target : Str → φ) (s : Store φ) (l : Act) (o : Option (Op φ)) : Prop :=
  ∃ truncated, o = s.does target truncated l

/-- What a step stands for leads to a state that agrees again. -/
def Follows (target : Str → φ) (parsers : Str → Option (Data → Except Str Data)) (s t : Store φ) (a : Plain φ)
    (l : Act) : Prop :=
  ∃ (o : Option (Op φ)) (b : Plain φ), Stands target s l o ∧
    exec (Plain.step target parsers) a o.toList = some b ∧ Agrees target t b

/-- The step counts for nothing. -/
theorem Agrees.silent {l : Act} (agrees : Agrees target t a) (none : s.does target false l = none) :
    Follows target parsers s t a l :=
  ⟨Option.none, a, ⟨false, none.symm⟩, rfl, agrees⟩

/-- A file is emptied, or left as it is, and not written. -/
theorem Agrees.leaves {f : φ} {stream : Bool} {l : Act} (h : Agrees target s a)
    (free : ∀ x ∈ s.tasks target, x.file ≠ f) (does : s.does target false l = some (.store f stream [] 0))
    (tasks : (s.tasks target).Perm (t.tasks target)) (disk : t.disk = s.disk.put f (ground stream (s.disk f)))
    (loads : t.loads = s.loads) (returned : t.returned = s.returned) : Follows target parsers s t a l := by
  have same : s.disk f = a.disk f := h.atomic.still f fun x hx here => absurd here (free x hx)
  have whole : overwritten (ground stream (a.disk f)) [] 0 = ground stream (s.disk f) := by
    rw [same, overwritten]
    simp
  refine ⟨_, { a with disk := a.disk.put f (ground stream (s.disk f)) }, ⟨false, does.symm⟩, ?_, ?_, ?_, ?_⟩
  · simp [exec, Plain.step, whole]
  · rw [disk]
    exact (h.atomic.put free _).perm tasks
  · exact returned.trans h.returned
  · rw [loads]
    exact h.answered

theorem Agrees.pass {o : MNNSaver.Opening} (h : Agrees target s a) (hx : s.saves[i]? = some x)
    (careful : s.Careful target (.save i (.call (.next o))))
    (pass : MNNSaver.Pass target (x.modify fun m => { m with disk := s.disk }) o y) :
    Follows target parsers s { s with disk := y.state.disk, saves := s.saves.set i y } a
      (.save i (.call (.next o))) := by
  cases pass with
  | returns o done =>
    change x.state.todo = [] at done
    have silent : s.does target false (.save i (.call (.next o))) = none := by
      cases o with
      | throws => rfl
      | tried stream device =>
        rw [Store.does, hx]
        simp [done]
      | beyond stream content => rfl
    refine Agrees.silent (h.unchanged (tasks_unchanged hx ?_ _) rfl rfl rfl) silent
    exact List.Perm.refl _
  | throws hp =>
    refine Agrees.silent (h.unchanged (tasks_unchanged hx ?_ _) rfl rfl rfl) rfl
    exact List.Perm.refl _
  | @refused path todo stream hp _ =>
    change x.state.todo = path :: todo at hp
    have does := does_next target hx hp false stream false
    have posted : ((x.pool ++ [(⟨.handleWrite, some .success⟩ : Entry MNNSaver.Handler MNNSaver.Ec)]).flatMap
        (writing target)).Perm (x.pool.flatMap (writing target)) := by
      simp [writing]
    cases stream with
    | false => exact Agrees.silent (h.unchanged (tasks_unchanged hx posted _) rfl rfl rfl) (by simpa using does)
    | true =>
      refine h.leaves (careful.free (opens_next hx hp rfl)) (by simpa using does) (tasks_unchanged hx posted _) ?_
        rfl rfl
      rfl
  | outOfRange stream content _ _ _ => cases careful.1
  | @starts path content todo contents stream hp some _ =>
    change x.state.todo = path :: todo at hp
    have does := does_next target hx hp false stream true
    have free := careful.free (opens_next hx hp (Bool.or_true stream))
    obtain ⟨rest, before, after⟩ := tasks_save target hx
    refine Agrees.silent ⟨?_, h.returned, h.answered⟩ (by simpa using does)
    have opened := h.atomic.openWrite free stream content
    rw [← opened_disk stream (x.state.filename ++ path) { x.state with disk := s.disk, todo }] at opened
    refine opened.perm ((before.cons _).trans (List.Perm.trans ?_ (after _ _).symm))
    have started : (x.pool ++ [(⟨.write (x.state.filename ++ path) content 0, Option.none⟩ :
        Entry MNNSaver.Handler MNNSaver.Ec)]).flatMap (writing target) =
          x.pool.flatMap (writing target) ++ [.write (target (x.state.filename ++ path)) content 0] := by
      rw [List.flatMap_append, List.flatMap_singleton]
      rfl
    change (_ :: (x.pool.flatMap (writing target) ++ rest)).Perm
      ((x.pool ++ [(⟨.write (x.state.filename ++ path) content 0, Option.none⟩ :
        Entry MNNSaver.Handler MNNSaver.Ec)]).flatMap (writing target) ++ rest)
    rw [started, ← List.cons_append]
    exact (List.perm_append_singleton _ _).symm.append_right rest

theorem Agrees.save {l : Label MNNSaver.Ec Unit MNNSaver.Act} (h : Agrees target s a)
    (careful : s.Careful target (.save i l)) (step : s.step target parsers (.save i l) = some t) :
    Follows target parsers s t a (.save i l) := by
  obtain ⟨x, hx, step⟩ := Option.bind_eq_some_iff.mp step
  obtain ⟨y, hy, rfl⟩ := Option.map_eq_some_iff.mp step
  rcases Machine.step_cases hy with ⟨_, _, _, _, _, completes, _⟩ | ⟨k, _, z, e, rest, rfl, hk, hr⟩ | ⟨act, rfl, ha⟩
  · cases completes
  · obtain ⟨disk, pool⟩ := handler_frame hr
    change takeAt x.pool k = some (⟨z, some e⟩, rest) at hk
    have same : (y.pool.flatMap (writing target)).Perm (x.pool.flatMap (writing target)) := by
      rw [pool]
      have all := (takeAt_perm hk).flatMap_right (writing target)
      cases z with
      | write file content written => exact all.symm
      | handleWrite => exact all.symm
    exact Agrees.silent (h.unchanged (tasks_unchanged hx same _) disk rfl rfl) rfl
  · cases act with
    | next o => exact h.pass hx careful (MNNSaver.next_pass ha).2
    | transfer k n =>
      obtain ⟨file, content, written, hk, room, rfl⟩ := MNNSaver.transfer_cases ha
      change x.pool[k]? = some ⟨.write file content written, none⟩ at hk
      obtain ⟨rest, before, after⟩ := tasks_entry target hx hk
      refine Agrees.silent ⟨?_, h.returned, h.answered⟩ rfl
      exact ((h.atomic.perm before).write room).perm (after _ _ ⟨.write file content (written + n), none⟩).symm
    | complete k e =>
      obtain ⟨file, content, written, hk, done, rfl⟩ := MNNSaver.complete_cases ha
      change x.pool[k]? = some ⟨.write file content written, none⟩ at hk
      obtain ⟨rest, before, after⟩ := tasks_entry target hx hk
      obtain ⟨truncated, closed⟩ := (h.atomic.perm before).closeWrite
      refine ⟨some (.store (target file) truncated content written), _, ⟨truncated, ?_⟩, rfl, ?_, h.returned, h.answered⟩
      · simp [Store.does, hx, hk]
      · exact closed.perm (after _ _ ⟨.write file content written, some e⟩).symm

/-- The loads that a step does not touch are told what they were told. -/
theorem answered_set {answers : List (Nat × Str)} {loads : List Load} {z : Load}
    (old : ∀ j w, loads[j]? = some w → Answered answers j w) (new : Answered answers i z) :
    ∀ j w, (loads.set i z)[j]? = some w → Answered answers j w := by
  intro j w hj
  rcases set_cases hj with ⟨rfl, rfl⟩ | ⟨_, hj⟩
  · exact new
  · exact old j w hj

theorem Agrees.loadASync {url : Str} {parse save opened : Bool} (h : Agrees target s a)
    (careful : s.Careful target (.loadASync url parse save opened))
    (step : s.step target parsers (.loadASync url parse save opened) = some t) :
    Follows target parsers s t a (.loadASync url parse save opened) := by
  simp only [Store.step] at step
  split at step
  next => cases step
  next =>
    split at step
    next => cases step
    next there =>
      obtain rfl := Option.some.inj step
      generalize hbase : (getURLComponents url).2.base = base at there
      have answered : ∀ j w, (s.loads ++ [{ filename := base, reading := MNNLoader.loadASync base parse save opened }])[j]? =
          some w → Answered a.answers j w := by
        intro j w hj
        rcases concat_cases hj with old | rfl
        · exact h.answered j w old
        · exact Answered.begun ..
      refine Agrees.silent ⟨?_, h.returned, answered⟩ rfl
      have more (z : Load) : ({ s with loads := s.loads ++ [z] } : Store φ).tasks target =
          s.tasks target ++ z.reading.pool.flatMap (reading target z.buffer) := by
        simp [Store.tasks, List.flatMap_append, List.append_assoc]
      rw [more]
      cases opened with
      | false =>
        have none : (MNNLoader.loadASync base parse save false).pool.flatMap (reading target []) = [] := rfl
        rw [none, List.append_nil]
        exact h.atomic
      | true =>
        by_cases regular : MNNSaver.namesFile base = true
        · have reads : (MNNLoader.loadASync base parse save true).pool.flatMap (reading target []) =
              [.read (target base) []] := by
            simp [MNNLoader.loadASync, reading, regular]
          have some : s.disk (target base) ≠ none := fun none => there ⟨rfl, regular, none⟩
          obtain ⟨content, found⟩ := Option.ne_none_iff_exists'.mp some
          have still := careful.still (f := target base) (by rw [← hbase]; rfl)
          rw [reads]
          exact (h.atomic.openRead still found).perm (List.perm_append_singleton _ _).symm
        · have none : (MNNLoader.loadASync base parse save true).pool.flatMap (reading target []) = [] := by
            simp [MNNLoader.loadASync, reading, regular]
          rw [none, List.append_nil]
          exact h.atomic

theorem Agrees.read {n : Nat} (h : Agrees target s a) (step : s.step target parsers (.read i n) = some t) :
    Follows target parsers s t a (.read i n) := by
  obtain ⟨x, hx, step⟩ := Option.bind_eq_some_iff.mp step
  split at step
  next f p q hp =>
    obtain ⟨content, found, rfl⟩ := Option.map_eq_some_iff.mp step
    obtain ⟨regular, there⟩ := found_some found
    have told := h.answered i x hx
    obtain rfl : f = x.filename := (told.reading ⟨.read f p q, none⟩ (by simp [hp]) f p q rfl).1
    obtain ⟨rest, before, after⟩ := tasks_load target hx
    refine Agrees.silent ⟨?_, h.returned, answered_set h.answered ⟨told.delivered, ?_⟩⟩ rfl
    · have now (buffer : Str) : x.reading.pool.flatMap (reading target buffer) =
          [.read (target x.filename) buffer] := by
        simp [hp, reading, regular]
      rw [now] at before
      have next := after { x with buffer := x.buffer ++ (content.drop x.buffer.length).take n }
      rw [now] at next
      exact ((h.atomic.perm before).read there n).perm next.symm
    · intro y hy g p' q' own
      refine ⟨(told.reading y hy g p' q' own).1, fun ended => ?_⟩
      rw [hp] at hy
      obtain rfl := List.mem_singleton.mp hy
      cases ended
  next => cases step

theorem Agrees.finish {e : MNNLoader.Ec} (h : Agrees target s a) (step : s.step target parsers (.finish i e) = some t) :
    Follows target parsers s t a (.finish i e) := by
  obtain ⟨x, hx, step⟩ := Option.bind_eq_some_iff.mp step
  split at step
  next => cases step
  next whole =>
    obtain ⟨r, hr, rfl⟩ := Option.map_eq_some_iff.mp step
    have told := h.answered i x hx
    rcases Machine.step_cases hr with ⟨k, e', z, same, hk, completes, rfl⟩ | ⟨_, _, _, _, _, same, _⟩ | ⟨none, _, _⟩
    · cases same
      cases z with
      | completion err => cases completes
      | read f p q =>
        obtain rfl : f = x.filename := (told.reading _ (List.mem_of_getElem? hk) f p q rfl).1
        obtain ⟨rest, before, after⟩ := tasks_reading target hx hk
        have next := after x.reading.state ⟨.read x.filename p q, some e⟩
        have closed : reading target x.buffer ⟨.read x.filename p q, some e⟩ = ([] : List (Task φ Char)) := rfl
        rw [closed, List.nil_append] at next
        by_cases regular : MNNSaver.namesFile x.filename = true
        · have reads : reading target x.buffer ⟨.read x.filename p q, none⟩ =
              ([.read (target x.filename) x.buffer] : List (Task φ Char)) := if_pos regular
          rw [reads] at before
          have atomic := h.atomic.perm before
          cases e with
          | other =>
            exact Agrees.silent ⟨atomic.closeRead.perm next.symm, h.returned,
              answered_set h.answered (told.finished 0 fun eof => (by cases eof))⟩ rfl
          | eof =>
            obtain ⟨content, due, _⟩ := atomic.fits _ List.mem_cons_self
            have there : s.disk (target x.filename) = some content := atomic.read_still.trans due
            have ended : content.length ≤ x.buffer.length := by
              simpa [FileManager.found, regular, there] using whole
            have answer := atomic.read_whole there ended
            refine ⟨some (.load i (target x.filename)), { a with answers := a.answers ++ [(i, x.buffer)] },
              ⟨false, ?_⟩, ?_, atomic.closeRead.perm next.symm, h.returned, ?_⟩
            · simp [Store.does, hx]
            · simp [exec, Plain.step, answer]
            · have grown : a.answers ⊆ a.answers ++ [(i, x.buffer)] := List.subset_append_left _ _
              refine answered_set (fun j w hj => (h.answered j w hj).grows grown) ((told.grows grown).finished 0 fun _ => ?_)
              exact List.mem_concat_self
        · cases e with
          | eof => simp [MNNLoader.machine, MNNLoader.Handler.completes, regular] at completes
          | other =>
            have none : reading target x.buffer ⟨.read x.filename p q, none⟩ = ([] : List (Task φ Char)) :=
              if_neg regular
            rw [none, List.nil_append] at before
            exact Agrees.silent ⟨h.atomic.perm (before.trans next.symm), h.returned,
              answered_set h.answered (told.finished 0 fun eof => (by cases eof))⟩ rfl
    · cases same
    · exact none.elim

theorem Agrees.report (h : Agrees target s a) (step : s.step target parsers (.report i) = some t) :
    Follows target parsers s t a (.report i) := by
  obtain ⟨x, hx, step⟩ := Option.bind_eq_some_iff.mp step
  obtain ⟨r, hr, rfl⟩ := Option.map_eq_some_iff.mp step
  have told := h.answered i x hx
  rcases Machine.step_cases hr with ⟨_, _, _, same, _⟩ | ⟨k, o, z, e, rest, same, hk, run⟩ | ⟨none, _, _⟩
  · cases same
  · cases same
    obtain rfl := Option.some.inj run
    obtain ⟨pool, answered⟩ := told.reported hk
    obtain ⟨others, before, after⟩ := tasks_load target hx
    have same : (x.reading.pool.flatMap (reading target x.buffer)).Perm (rest.flatMap (reading target x.buffer)) := by
      have all := (takeAt_perm hk).flatMap_right (reading target x.buffer)
      cases z with
      | read f p q => exact all
      | completion err => exact all
    refine Agrees.silent ⟨?_, h.returned, answered_set h.answered answered⟩ rfl
    have next := after { x with reading := z.run e x.buffer { x.reading with pool := rest } }
    rw [pool] at next
    exact h.atomic.perm (before.trans ((same.append_right _).trans next.symm))
  · exact none.elim

/-- Each step of the store stands for one step of files that are stored and loaded in one go, or for none. -/
theorem Agrees.step {l : Act} (h : Agrees target s a) (careful : s.Careful target l)
    (step : s.step target parsers l = some t) : Follows target parsers s t a l := by
  cases l with
  | saveASync url data nullData uuid saveLocation =>
    simp only [Store.step] at step
    split at step
    next =>
      obtain rfl := Option.some.inj step
      refine Agrees.silent (h.unchanged (List.Perm.of_eq ?_) rfl rfl rfl) rfl
      have idle := saveASync_idle (getURLComponents url).2.base data nullData uuid saveLocation s.disk
      simp [Store.tasks, List.flatMap_append, idle]
    next => cases step
  | save i l => exact h.save careful step
  | loadASync url parse save opened => exact h.loadASync careful step
  | read i n => exact h.read step
  | finish i e => exact h.finish step
  | report i => exact h.report step
  | call c =>
    obtain ⟨⟨disk, r⟩, run, rfl⟩ := Option.map_eq_some_iff.mp step
    obtain ⟨cells, same, atomic⟩ := Call.run_agrees h.atomic careful.2 run
    refine ⟨some (.call c), { a with disk := cells, returned := a.returned ++ [r] }, ⟨false, rfl⟩, ?_, atomic, ?_,
      h.answered⟩
    · simp [exec, Plain.step, same]
    · rw [h.returned]

theorem agrees_begun {φ : Type} (target : Str → φ) (disk : Disk φ Char) : Agrees target (begun disk) { disk } :=
  ⟨Atomic.begun disk, rfl, fun i x hx => (by cases hx)⟩

/-- Saves and loads that go on together, piece by piece, are as if each file were stored and
loaded in one go, at the step that ends its write or meets its end, as long as no file is opened
that is being written and none to write it that is being read, and no save has too few contents. -/
theorem store_atomic {disk : Disk φ Char} {ls : List Act}
    (run : exec (guarded (Store.step target parsers) (Store.Careful target)) (begun disk) ls = some s) :
    ∃ os : List (Option (Op φ)), os.length = ls.length ∧ ∀ k, k ≤ ls.length → ∃ u a,
      exec (guarded (Store.step target parsers) (Store.Careful target)) (begun disk) (ls.take k) = some u ∧
      exec (Plain.step target parsers) { disk } ((os.take k).flatMap Option.toList) = some a ∧
      Agrees target u a ∧ ∀ l o, ls[k]? = some l → os[k]? = some o → Stands target u l o := by
  refine exec_simulates (R := Agrees target) ?_ (agrees_begun target disk) run
  intro u a l v agrees step
  obtain ⟨careful, step⟩ := guarded_cases step
  obtain ⟨o, b, stands, does, related⟩ := agrees.step careful step
  exact ⟨o, b, stands, does, related⟩

end Simulation

/-- The save of a file of two bytes. -/
def saves : List Act :=
  [.saveASync "file://d/".toList (.success (some ⟨["a".toList], ["xy".toList]⟩)) false [] none,
    .save 0 (.call (.next (.tried true true))), .save 0 (.call (.transfer 0 1))]

/-- Between its two pieces another file is looked for, and one is written while it is loaded. -/
def savedAndLoaded : List Act :=
  saves ++ [.call (.loadFile "file://e".toList false {}), .save 0 (.call (.transfer 0 1)),
    .save 0 (.call (.complete 0 .success)), .loadASync "file://d/a".toList false false true, .read 0 1,
    .call (.saveFile "mnn://e".toList (some (.string ['z'])) true), .read 0 5, .finish 0 .eof, .report 0]

def told (s : Store Str) : List (List ReadCall) := s.loads.map fun x => x.reading.state.delivered

theorem store_atomic_loaded : ∃ s : Store Str,
    told s = [[⟨.success (some ⟨["a".toList], ["xy".toList]⟩), false, false⟩]] ∧
    ∃ os : List (Option (Op Str)), os.length = 12 ∧ ∀ k, k ≤ 12 → ∃ u a,
      exec (guarded (Store.step id fun _ => none) (Store.Careful id)) (begun fun _ => none) (savedAndLoaded.take k) =
        some u ∧
      exec (Plain.step id fun _ => none) { disk := fun _ => none } ((os.take k).flatMap Option.toList) = some a ∧
      Agrees id u a ∧ ∀ l o, savedAndLoaded[k]? = some l → os[k]? = some o → Stands id u l o := by
  have runs : (exec (guarded (Store.step id fun _ => none) (Store.Careful id)) (begun fun _ : Str => none)
      savedAndLoaded).any (fun s => told s = [[⟨.success (some ⟨["a".toList], ["xy".toList]⟩), false, false⟩]]) =
        true := by decide
  cases run : exec (guarded (Store.step id fun _ => none) (Store.Careful id)) (begun fun _ : Str => none)
      savedAndLoaded with
  | none =>
    rw [run] at runs
    cases runs
  | some s =>
    rw [run] at runs
    exact ⟨s, of_decide_eq_true runs, store_atomic run⟩

/-- A file that is loaded while it is saved can be told as it has never been. -/
theorem load_torn : ∃ s : Store Str, Reaches (Store.step id fun _ => none) Free (begun fun _ => none) s ∧
    told s = [[⟨.success (some ⟨["a".toList], ["x".toList]⟩), false, false⟩]] := by
  obtain ⟨s, reach, torn⟩ := reaches_of_any (Store.step id fun _ => none) (begun fun _ : Str => none)
    (saves ++ [.loadASync "file://d/a".toList false false true, .read 0 1, .finish 0 .eof, .report 0])
    (fun s => told s = [[⟨.success (some ⟨["a".toList], ["x".toList]⟩), false, false⟩]]) (by decide)
  exact ⟨s, reach, of_decide_eq_true torn⟩

end LocalStore

end AsyncIOManager
