import AsyncIOManager.MNNCompletion
import AsyncIOManager.IPFSStaging
import AsyncIOManager.IPFSCommon

namespace AsyncIOManager

open Reactor Files Paths

namespace MNNSaver

/-- The paths that the loop can come to open: those before them can name files. -/
def openable (filename : Str) (paths : List Str) : List Str :=
  paths.takeWhile fun path => namesFile (filename ++ path)

variable {φ : Type} {target : Str → φ} {s t : Saving φ}

def ahead (m : Save φ) : List Str := if m.exit = none then openable m.filename m.todo else []

/-- The files that a save has created or can still create. -/
def creates (m : Save φ) : List Str := m.created ++ (ahead m).map fun path => cStr (m.filename ++ path)

theorem creates_left {m : Save φ} {e : Exit} (left : m.exit = some e) : creates m = m.created := by
  simp [creates, ahead, left]

theorem created_creates {m : Save φ} {file : Str} (h : file ∈ m.created) : file ∈ creates m :=
  List.mem_append_left _ h

theorem openable_cons {filename path : Str} (regular : namesFile (filename ++ path) = true) (paths : List Str) :
    openable filename (path :: paths) = path :: openable filename paths :=
  List.takeWhile_cons_of_pos regular

/-- The next file of the loop, and those behind it, are to be created. -/
theorem creates_cons {m : Save φ} (running : m.exit = none) {path : Str} {todo : List Str}
    (hp : m.todo = path :: todo) (regular : namesFile (m.filename ++ path) = true) :
    creates m = m.created ++ cStr (m.filename ++ path) ::
      (openable m.filename todo).map fun path => cStr (m.filename ++ path) := by
  rw [creates, ahead, if_pos running, hp, openable_cons regular, List.map_cons]

theorem head_creates {m : Save φ} (running : m.exit = none) {path : Str} {todo : List Str}
    (hp : m.todo = path :: todo) (regular : namesFile (m.filename ++ path) = true) :
    cStr (m.filename ++ path) ∈ creates m := by
  rw [creates_cons running hp regular]
  exact List.mem_append_right _ List.mem_cons_self

theorem countDown_creates (m : Save φ) : creates (countDown m) = creates m := by
  rw [countDown_eq]
  rfl

theorem run_creates {x : Handler} {e : Ec} (h : x.run e () s = some t) :
    creates t.state = creates s.state := by
  cases x with
  | write file content n =>
    obtain rfl := Option.some.inj h
    cases e with
    | success | error => exact countDown_creates _
  | handleWrite =>
    obtain rfl := Option.some.inj h
    rfl

variable [DecidableEq φ]

theorem streamed_created {stream : Bool} {file f : Str} {m : Save φ}
    (h : f ∈ (m.streamed target stream file).created) : f ∈ m.created ∨ stream = true ∧ f = cStr file := by
  cases stream with
  | false => exact .inl h
  | true =>
    rcases List.mem_append.mp h with h | h
    · exact .inl h
    · exact .inr ⟨rfl, List.mem_singleton.mp h⟩

/-- When both have been opened, only the files behind the one that has been created are left. -/
theorem started_creates (target : Str → φ) {m : Save φ} (running : m.exit = none) {path : Str} {todo : List Str} (stream : Bool)
    (hp : m.todo = path :: todo) (regular : namesFile (m.filename ++ path) = true) {n : Save φ}
    (created : n.created = (({ m with todo }.streamed target stream (m.filename ++ path)).openDevice target
      (m.filename ++ path)).created)
    (left : ahead n = openable m.filename todo) (filename : n.filename = m.filename) :
    ∀ file ∈ creates n, file ∈ creates m := by
  intro file h
  rcases List.mem_append.mp h with h | h
  · rw [created] at h
    rcases List.mem_append.mp h with h | h
    · rcases streamed_created h with h | ⟨_, rfl⟩
      · exact created_creates h
      · exact head_creates running hp regular
    · rw [List.mem_singleton.mp h]
      exact head_creates running hp regular
  · rw [creates_cons running hp regular]
    rw [left, filename] at h
    exact List.mem_append_right _ (List.mem_cons_of_mem _ h)

/-- A pass of the loop creates only a file that was to be created. -/
theorem pass_creates {o : Opening} (running : s.state.exit = none) (pass : Pass target s o t) :
    ∀ file ∈ creates t.state, file ∈ creates s.state := by
  cases pass with
  | returns o done =>
    intro file h
    rw [creates_left rfl] at h
    exact created_creates h
  | throws hp =>
    intro file h
    rw [creates_left rfl] at h
    exact created_creates h
  | @refused path todo stream hp regular =>
    intro file h
    rw [creates_left rfl] at h
    rcases streamed_created h with h | ⟨on, rfl⟩
    · exact created_creates h
    · exact head_creates running hp (regular on)
  | @outOfRange path todo stream content hp none regular =>
    refine started_creates target running stream hp regular rfl ?_ ?_
    · cases stream with
      | true | false => simp [ahead, Save.streamed, Save.truncate, Save.openDevice, running]
    · cases stream with
      | true | false => rfl
  | @starts path content todo contents stream hp some regular =>
    refine started_creates target running stream hp regular rfl ?_ ?_
    · cases stream with
      | true | false => simp [ahead, Save.streamed, Save.truncate, Save.openDevice, running]
    · cases stream with
      | true | false => rfl

theorem step_creates {l : Label Ec Unit Act} (h : (machine target).step s l = some t) :
    ∀ file ∈ creates t.state, file ∈ creates s.state := by
  rcases Machine.step_cases h with ⟨_, _, _, _, _, hc, _⟩ | ⟨k, _, x, e, rest, rfl, hk, hr⟩ | ⟨a, rfl, ha⟩
  · cases hc
  · intro file hf
    rw [run_creates hr] at hf
    exact hf
  · cases a with
    | next o =>
      obtain ⟨running, pass⟩ := next_pass ha
      exact pass_creates running pass
    | transfer k n =>
      obtain ⟨_, _, _, _, _, rfl⟩ := transfer_cases ha
      exact fun _ h => h
    | complete k e =>
      obtain ⟨_, _, _, _, _, rfl⟩ := complete_cases ha
      exact fun _ h => h

theorem next_opens (running : s.state.exit = none) {path : Str} {todo : List Str}
    (hp : s.state.todo = path :: todo) (regular : namesFile (s.state.filename ++ path) = true) :
    ∃ o t, next target o s = some t ∧ cStr (s.state.filename ++ path) ∈ t.state.created ∧
      t.state.todo = todo ∧ t.state.exit = none ∧ t.state.filename = s.state.filename := by
  have opened (m : Save φ) (file : Str) :
      cStr file ∈ ((m.truncate target file).openDevice target file).created := by
    simp [Save.truncate, Save.openDevice]
  cases left : s.state.contents with
  | nil =>
    have pass : next target (.beyond true []) s =
        some ((s.modify fun m => { ({ m with todo }.truncate target (m.filename ++ path)).openDevice target
          (m.filename ++ path) with outOfRange := true }).start (.write (s.state.filename ++ path) [] 0)) := by
      simp [next, running, hp, regular, Save.truncate, Save.openDevice, Loop.modify, left]
    exact ⟨_, _, pass, opened _ _, rfl, running, rfl⟩
  | cons content contents =>
    exact ⟨_, _, next_starts running hp left regular, opened _ _, rfl, running, rfl⟩

/-- Every file that the loop can come to is created when all that is opened before it is. -/
theorem reaches_created {path : Str} {todo : List Str} (ht : s.state.todo = todo) (running : s.state.exit = none)
    (hp : path ∈ openable s.state.filename todo) :
    ∃ t, Reaches (machine target).step Free s t ∧ cStr (s.state.filename ++ path) ∈ t.state.created := by
  induction todo generalizing s with
  | nil => cases hp
  | cons first todo ih =>
    have regular : namesFile (s.state.filename ++ first) = true := by
      by_contra bad
      simp [openable, bad] at hp
    obtain ⟨o, t, step, created, left, goes, filename⟩ := next_opens running ht regular
    have one : Reaches (machine target).step Free s t := Reaches.one (l := .call (.next o)) trivial step
    rw [openable_cons regular] at hp
    rcases List.mem_cons.mp hp with rfl | hp
    · exact ⟨t, one, created⟩
    · rw [← filename] at hp ⊢
      obtain ⟨u, more, created⟩ := ih left goes hp
      exact ⟨u, one.trans more, created⟩

/-- Exactly these files are created in the runs of a save. -/
theorem created_iff (blank : s.state.created = []) (file : Str) :
    (∃ t, Reaches (machine target).step Free s t ∧ file ∈ t.state.created) ↔
      ∃ path ∈ ahead s.state, file = cStr (s.state.filename ++ path) := by
  constructor
  · rintro ⟨t, reach, h⟩
    have mem : file ∈ creates s.state :=
      reach.invariant (P := fun t => ∀ file ∈ creates t.state, file ∈ creates s.state)
        (fun _ _ _ ht _ hs file h => ht file (step_creates hs file h)) (fun _ h => h) file (created_creates h)
    rw [creates, blank, List.nil_append] at mem
    obtain ⟨path, hp, rfl⟩ := List.mem_map.mp mem
    exact ⟨path, hp, rfl⟩
  · rintro ⟨path, hp, rfl⟩
    unfold ahead at hp
    split at hp
    next running => exact reaches_created rfl running hp
    next => cases hp

/-- The paths of a payload that a call of `SaveASync` can come to open. -/
def pathsOpened (destination : Str) (data : Payload) (nullData : Bool) : List Str :=
  if data.second = [] ∧ nullData = true then [] else openable destination data.first

/-- What a path appended to a directory, taken as a C string, leads to. -/
theorem inside_cStr_iff (dir path : Str) :
    (place (cStr (dir ++ ['/']))).Inside (place (cStr (dir ++ '/' :: path))) ↔
      nul ∉ dir ∧ (place (dir ++ ['/'])).Stays (relative (cStr path)) := by
  by_cases cut : nul ∈ dir
  · rw [cStr_cut cut, cStr_cut cut]
    refine ⟨?_, fun both => absurd cut both.1⟩
    rintro ⟨_, _, tail, more, same⟩
    exact absurd (List.self_eq_append_right.mp same) more
  · have plain : nul ∉ dir ++ ['/'] := by simpa [nul] using cut
    have whole : dir ++ '/' :: path = (dir ++ ['/']) ++ path := by simp
    rw [whole, cStr_append plain, cStr_plain plain, List.append_assoc, List.singleton_append, inside_iff]
    exact (and_iff_right cut).symm

/-- The files of a save are in its directory in all runs if and only if the paths stay there. -/
theorem contained_iff {filename uuid dir : Str} (directory : destination filename uuid = dir ++ ['/'])
    (data : Payload) (nullData : Bool) (saveLocation : Option Str) (disk : Disk φ Char) :
    (∀ t, Reaches (machine target).step Free
        (saveASync filename (.success (some data)) nullData uuid saveLocation disk) t →
      ∀ file ∈ t.state.created, (place (cStr (dir ++ ['/']))).Inside (place file)) ↔
      ∀ path ∈ pathsOpened (dir ++ ['/']) data nullData,
        nul ∉ dir ∧ (place (dir ++ ['/'])).Stays (relative (cStr path)) := by
  have start : ahead (saveASync filename (.success (some data)) nullData uuid saveLocation disk).state =
      pathsOpened (dir ++ ['/']) data nullData := by
    simp only [saveASync, pathsOpened, ahead]
    split <;> simp [directory]
  have at_dir : ∀ path ∈ pathsOpened (dir ++ ['/']) data nullData,
      (saveASync filename (.success (some data)) nullData uuid saveLocation disk).state.filename ++ path =
        dir ++ '/' :: path := by
    intro path hp
    simp only [saveASync]
    split
    next empty => simp [pathsOpened, empty] at hp
    next => simp [directory]
  have blank : (saveASync filename (.success (some data)) nullData uuid saveLocation disk).state.created = [] := by
    simp only [saveASync]
    split <;> rfl
  have created (file : Str) : (∃ t, Reaches (machine target).step Free
      (saveASync filename (.success (some data)) nullData uuid saveLocation disk) t ∧ file ∈ t.state.created) ↔
      _ := created_iff blank file
  rw [start] at created
  constructor
  · intro inside path hp
    obtain ⟨t, reach, mem⟩ := (created _).mpr ⟨path, hp, rfl⟩
    have within := inside t reach _ mem
    rw [at_dir path hp] at within
    exact (inside_cStr_iff dir path).mp within
  · intro stays t reach file mem
    obtain ⟨path, hp, rfl⟩ := (created file).mp ⟨t, reach, mem⟩
    rw [at_dir path hp]
    exact (inside_cStr_iff dir path).mpr (stays path hp)

end MNNSaver

theorem slash_relative {dir path : Str} (relative : path.head? ≠ some '/') :
    slash dir path = slash dir [] ++ path := by
  by_cases bare : filename dir = []
  · simp [slash, relative, bare]
  · simp [slash, relative, bare]

/-- The directory of a joined path is empty or ends with a separator. -/
theorem slash_directory (dir : Str) : slash dir [] = [] ∨ ∃ d, slash dir [] = d ++ ['/'] := by
  by_cases bare : filename dir = []
  · rcases filename_cases dir with ⟨_, same⟩ | ⟨d, name, rfl, _, same⟩
    · left
      rw [bare] at same
      subst same
      decide
    · rw [bare] at same
      subst same
      exact .inr ⟨d, by simp [slash, bare]⟩
  · exact .inr ⟨dir, by simp [slash, bare]⟩

theorem inside_slash_iff {dir path : Str} (isRelative : path.head? ≠ some '/') :
    (place (slash dir [])).Inside (place (slash dir path)) ↔
      (place (slash dir [])).Stays (relative path) := by
  rw [slash_relative isRelative]
  rcases slash_directory dir with empty | ⟨d, same⟩
  · have here : place [] = Place.current := by decide
    have origin : origin path = Place.current := by simp [origin, isRelative, Place.current]
    rw [empty, List.nil_append, here, place, origin]
    exact Place.inside_walk_iff Place.current _
  · rw [same, List.append_assoc]
    exact inside_iff d path

namespace IPFSSaver

theorem tempName_plain (now : Nat) : '/' ∉ tempName now := by
  intro slash
  rcases List.mem_append.mp slash with slash | slash
  · exact absurd slash (by decide)
  · have digit := Nat.isDigit_of_mem_toDigits (by omega) (by omega) slash
    exact absurd digit (by decide)

/-- A temporary file is in the directory for such files. -/
theorem inside_temp (dir : Str) (now : Nat) :
    (place (slash dir [])).Inside (place (slash dir (tempName now))) := by
  obtain ⟨rest, shape⟩ : ∃ rest, tempName now = 'i' :: 'p' :: rest := ⟨_, rfl⟩
  have isRelative : (tempName now).head? ≠ some '/' := by simp [shape]
  have regular : component (tempName now) = .name (tempName now) := by simp [component, shape]
  exact (inside_slash_iff isRelative).mpr (stays_name _ (tempName_plain now) regular)

theorem cStr_absolute {path : Str} : (cStr path).head? = some '/' ↔ path.head? = some '/' := by
  cases path with
  | nil => rfl
  | cons c path =>
    by_cases ends : c = nul
    · simp [cStr, ends, nul]
    · simp [cStr, ends]

/-- A NUL in a path ends the joined path there. -/
theorem cStr_slash (path : Str) : cStr (slash tempDirPath path) = slash tempDirPath (cStr path) := by
  have named : filename tempDirPath ≠ [] := by decide
  by_cases absolute : path.head? = some '/'
  · simp [slash, absolute, cStr_absolute.mpr absolute]
  · have split (q : Str) : tempDirPath ++ '/' :: q = (tempDirPath ++ ['/']) ++ q := by simp
    rw [slash, if_neg absolute, if_neg named, slash, if_neg (mt cStr_absolute.mp absolute), if_neg named, split path,
      cStr_append (by decide), ← split]

theorem inside_tempDirectory_iff (path : Str) :
    tempDirectory.Inside (place (slash tempDirPath path)) ↔
      path.head? ≠ some '/' ∧ tempDirectory.Stays (relative path) := by
  have here : place (slash tempDirPath []) = tempDirectory := by decide
  by_cases absolute : path.head? = some '/'
  · have root : (place path).root = true := by
      rw [place, Place.walk_root]
      simp [origin, absolute]
    have joined : slash tempDirPath path = path := by simp [slash, absolute]
    refine ⟨fun inside => ?_, fun relative => absurd absolute relative.1⟩
    rw [joined] at inside
    have same := root.symm.trans inside.1
    exact absurd same (by decide)
  · rw [← here, inside_slash_iff absolute]
    exact ⟨fun stays => ⟨absolute, stays⟩, fun both => both.2⟩

theorem inside_staged_iff (path : Str) :
    tempDirectory.Inside (place (cStr (slash tempDirPath path))) ↔
      path.head? ≠ some '/' ∧ tempDirectory.Stays (relative (cStr path)) := by
  rw [cStr_slash, inside_tempDirectory_iff, ne_eq, ne_eq, cStr_absolute]

/-- The paths of a payload that a save of several files comes to open. -/
def pathsStaged (data : Payload) : List Str :=
  if data.first.length = data.second.length ∧ data.first.length ≠ 1 then
    data.first.filter fun path => MNNSaver.namesFile (cStr (slash tempDirPath path))
  else []

/-- What a save has staged is in the directory that it stages to. -/
def Save.Contained (s : Save) : Prop :=
  ∀ f ∈ s.staged, (if s.single then place (slash s.tempDir []) else tempDirectory).Inside (place f.1)

theorem Kept.contained {s : Save} (h : Kept s)
    (stays : ∀ path ∈ pathsStaged s.data, path.head? ≠ some '/' ∧ tempDirectory.Stays (relative (cStr path))) :
    s.Contained := by
  intro f hf
  have names := h.staged f hf
  cases single : s.single with
  | true =>
    rw [Names, if_pos single] at names
    obtain ⟨now, same⟩ := names
    rw [if_pos rfl, same]
    exact inside_temp s.tempDir now
  | false =>
    rw [Names, single, if_neg (by simp)] at names
    obtain ⟨regular, path, mem, same⟩ := names
    have several : s.data.first.length ≠ 1 := by simpa [Save.single] using single
    have staged : path ∈ pathsStaged s.data := by
      rw [pathsStaged, if_pos ⟨h.sized, several⟩]
      exact List.mem_filter.mpr ⟨mem, same ▸ regular⟩
    rw [if_neg (by simp), same]
    exact (inside_staged_iff path).mpr (stays path staged)

theorem alone_step {s : Save} {t : Tree} {a : Act} {next : Save × Tree} (h : s.step a t = some next) :
    Reaches Process.step Free ⟨[s], t⟩ ⟨[next.1], next.2⟩ :=
  Reaches.one (l := .step 0 a) trivial (by simp [Process.step, h])

section Loop

variable {s : Save} {file content : Str} {rest : List (Str × Str)} (t : Tree)

theorem parent_step (hs : s.stage = .parentPath file content rest) :
    ∃ u, s.step .succeeds t = some (s.goto (.ofs file content rest), u) := by
  refine ⟨if file.head? = some '/' then t else t.createDirectories, ?_⟩
  simp only [Save.step, Save.succeed, hs]

theorem open_step (hs : s.stage = .ofs file content rest) (regular : MNNSaver.namesFile file = true) :
    s.step .succeeds t = some ((s.opened file).goto (.write file content rest), t.put (place file) []) := by
  simp only [Save.step, Save.succeed, hs, regular, if_true]

theorem skip_step (hs : s.stage = .ofs file content rest) :
    s.step .fails t = some (s.goto (.loop rest), t) := by
  simp only [Save.step, Save.fail, hs]

end Loop

/-- Every file whose path names one is staged when the files before it are not. -/
theorem reaches_staged {path : Str} {rest : List (Str × Str)} {s : Save} (t : Tree)
    (hs : s.stage = .loop rest) (mem : path ∈ rest.map Prod.fst)
    (regular : MNNSaver.namesFile (cStr (slash tempDirPath path)) = true) :
    ∃ v u, Reaches Process.step Free ⟨[s], t⟩ ⟨[v], u⟩ ∧ v.data = s.data ∧
      (cStr (slash tempDirPath path), []) ∈ v.staged := by
  induction rest generalizing s t with
  | nil => simp at mem
  | cons file rest ih =>
    obtain ⟨first, content⟩ := file
    obtain ⟨u, parent⟩ := parent_step t hs
    have one := alone_step parent
    by_cases this : path = first
    · subst this
      have opened := alone_step (open_step (s := s.goto (.ofs (cStr (slash tempDirPath path)) content rest)) u rfl regular)
      exact ⟨_, _, one.trans opened, rfl, by simp [Save.opened, Save.goto]⟩
    · have skipped := alone_step (skip_step (s := s.goto (.ofs (cStr (slash tempDirPath first)) content rest)) u rfl)
      have later : path ∈ rest.map Prod.fst := by simpa [this] using mem
      obtain ⟨v, u, more, data, staged⟩ := ih (s := s.goto (.loop rest)) u rfl later
      exact ⟨v, u, (one.trans skipped).trans more, data, staged⟩

/-- The loop of a save of several files is reached. -/
theorem reaches_loop {s : Save} (t : Tree) (hs : s.stage = .existing) :
    ∃ u, Reaches Process.step Free ⟨[s], t⟩ ⟨[s.goto (.loop s.files)], u⟩ := by
  have made (t : Tree) : Reaches Process.step Free ⟨[s.goto .createDirectories], t⟩
      ⟨[s.goto (.loop s.files)], t.createDirectories⟩ :=
    alone_step (s := s.goto .createDirectories) (a := .succeeds) (by rfl)
  cases present : t.present with
  | false =>
    have looked : s.step .succeeds t = some (s.goto .createDirectories, t) := by
      simp [Save.step, Save.succeed, hs, present]
    exact ⟨_, (alone_step looked).trans (made t)⟩
  | true =>
    have looked : s.step .succeeds t = some (s.goto .removeAll, t) := by
      simp [Save.step, Save.succeed, hs, present]
    have removed : Reaches Process.step Free ⟨[s.goto .removeAll], t⟩
        ⟨[s.goto .createDirectories], s.area.remove t⟩ :=
      alone_step (s := s.goto .removeAll) (a := .removes .done) (by rfl)
    exact ⟨_, ((alone_step looked).trans removed).trans (made _)⟩

/-- A payload is staged inside the directory in all runs if and only if its paths stay there. -/
theorem contained_iff (data : Payload) (tree : Tree) :
    (∀ p, Reaches Process.step Free ⟨[], tree⟩ p → ∀ s ∈ p.saves, s.data = data → s.Contained) ↔
      ∀ path ∈ pathsStaged data, path.head? ≠ some '/' ∧ tempDirectory.Stays (relative (cStr path)) := by
  constructor
  · intro contained path hp
    unfold pathsStaged at hp
    split at hp
    next sized =>
      obtain ⟨mem, regular⟩ := List.mem_filter.mp hp
      have several : data.first ≠ [] := List.ne_nil_of_mem mem
      have many : data.second.length ≠ 1 := sized.1 ▸ sized.2
      have begun : saveASync (.success (some data)) true none = { data, stage := .existing } := by
        simp [saveASync, several, sized.1, many]
      have called : Reaches Process.step Free ⟨[], tree⟩ ⟨[{ data, stage := .existing }], tree⟩ :=
        Reaches.one (l := .saveASync (.success (some data)) true none) trivial (by simp [Process.step, begun])
      obtain ⟨t, looped⟩ := reaches_loop (s := { data, stage := .existing }) tree rfl
      have listed : path ∈ (data.first.zip data.second).map Prod.fst := by
        rw [List.map_fst_zip (by omega)]
        exact mem
      obtain ⟨v, u, opened, same, staged⟩ :=
        reaches_staged (s := { data, stage := .loop (data.first.zip data.second) }) t rfl listed regular
      have single : v.single = false := by simp [Save.single, same, sized.2]
      have inside := contained _ ((called.trans looped).trans opened) v (by simp) same _ staged
      rw [single, if_neg (by simp)] at inside
      exact (inside_staged_iff path).mp inside
    next => cases hp
  · intro stays p reach s hs data
    exact (reaches_kept reach s hs).contained (data ▸ stays)

end IPFSSaver

section Claim

variable {φ : Type} [DecidableEq φ] (target : Str → φ)

/-- Every file of a save of files to a directory is in it, in all runs, if and only if the
paths that the loop comes to stay there. Every staged file is in the directory that it is
staged to, in all runs, if and only if the paths that can be opened are relative and stay. -/
theorem files_stay_inside_iff {filename uuid dir : Str}
    (directory : MNNSaver.destination filename uuid = dir ++ ['/']) (data : Payload) (nullData : Bool)
    (saveLocation : Option Str) (disk : Disk φ Char) (tree : IPFSSaver.Tree) :
    ((∀ t, Reaches (MNNSaver.machine target).step Free
          (MNNSaver.saveASync filename (.success (some data)) nullData uuid saveLocation disk) t →
        ∀ file ∈ t.state.created, (place (cStr (dir ++ ['/']))).Inside (place file)) ↔
      ∀ path ∈ MNNSaver.pathsOpened (dir ++ ['/']) data nullData,
        nul ∉ dir ∧ (place (dir ++ ['/'])).Stays (relative (cStr path))) ∧
    ((∀ p, Reaches IPFSSaver.Process.step Free ⟨[], tree⟩ p → ∀ s ∈ p.saves, s.data = data → s.Contained) ↔
      ∀ path ∈ IPFSSaver.pathsStaged data,
        path.head? ≠ some '/' ∧ IPFSSaver.tempDirectory.Stays (relative (cStr path))) :=
  ⟨MNNSaver.contained_iff directory data nullData saveLocation disk, IPFSSaver.contained_iff data tree⟩

theorem files_stay_inside_iff_page :
    ∃ t : MNNSaver.Saving Str, "u/a".toList ∈ t.state.created ∧
      (place (cStr ("u".toList ++ ['/']))).Inside (place "u/a".toList) := by
  have claim := files_stay_inside_iff (id : Str → Str)
    (show MNNSaver.destination [] "u".toList = "u".toList ++ ['/'] by decide)
    ⟨["a".toList], ["1".toList]⟩ false none (fun _ => none) IPFSSaver.emptyTree
  obtain ⟨t, reach, mem⟩ := reaches_of_any (MNNSaver.machine (id : Str → Str)).step
    (MNNSaver.saveASync [] (.success (some ⟨["a".toList], ["1".toList]⟩)) false "u".toList none fun _ => none)
    [.call (.next (.tried true true))] (fun t => decide ("u/a".toList ∈ t.state.created)) (by decide)
  refine ⟨t, of_decide_eq_true mem, claim.1.mpr ?_ t reach _ (of_decide_eq_true mem)⟩
  have paths : MNNSaver.pathsOpened ("u".toList ++ ['/']) ⟨["a".toList], ["1".toList]⟩ false = ["a".toList] := by
    decide
  rw [paths]
  intro path hp
  rw [List.mem_singleton.mp hp]
  exact ⟨by decide, stays_name _ (by decide) (by decide)⟩

/-- A remote directory with two entries, the second of which leads out of it. -/
def escaping : Payload :=
  IPFSDevice.unixFSPayload ⟨false, [⟨"a".toList, "1".toList⟩, ⟨"../b".toList, "2".toList⟩]⟩ []

/-- A file named by a remote directory is created outside the directory of the nested save,
and staged outside the temporary directory. -/
theorem remote_entry_escapes :
    (∃ t, Reaches (MNNSaver.machine (id : Str → Str)).step Free
        (MNNSaver.saveASync [] (.success (some escaping)) false "u".toList none fun _ => none) t ∧
      ∃ file ∈ t.state.created, ¬ (place "u/".toList).Inside (place file)) ∧
    ∃ p, Reaches IPFSSaver.Process.step Free ⟨[], IPFSSaver.emptyTree⟩ p ∧
      ∃ s ∈ p.saves, s.data = escaping ∧ ¬ s.Contained := by
  constructor
  · obtain ⟨t, reach, mem⟩ := reaches_of_any (MNNSaver.machine (id : Str → Str)).step
      (MNNSaver.saveASync [] (.success (some escaping)) false "u".toList none fun _ => none)
      [.call (.next (.tried true true)), .call (.next (.tried true true))]
      (fun t => decide ("u/../b".toList ∈ t.state.created)) (by decide)
    exact ⟨t, reach, _, of_decide_eq_true mem, by decide⟩
  · obtain ⟨p, reach, mem⟩ := reaches_of_any IPFSSaver.Process.step ⟨[], IPFSSaver.emptyTree⟩
      [.saveASync (.success (some escaping)) true none, .step 0 .succeeds, .step 0 .succeeds,
        .step 0 .succeeds, .step 0 .succeeds, .step 0 (.writes 1), .step 0 .succeeds, .step 0 .succeeds]
      (fun p => p.saves[0]?.any fun s => s.data = escaping && s.single = false &&
        ("ipfs_temp_publish/../b".toList, []) ∈ s.staged) (by decide)
    obtain ⟨s, hs, mem⟩ := (Option.any_eq_true ..).mp mem
    simp only [Bool.and_eq_true, decide_eq_true_eq] at mem
    obtain ⟨⟨data, single⟩, staged⟩ := mem
    refine ⟨p, reach, s, List.mem_of_getElem? hs, data, fun contained => ?_⟩
    have inside := contained _ staged
    rw [single, if_neg (by simp)] at inside
    exact absurd inside (by decide)

end Claim

end AsyncIOManager
