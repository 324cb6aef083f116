import AsyncIOManager.LoadedFiles
import AsyncIOManager.MNNStoring

namespace AsyncIOManager

open Reactor Files

namespace MNNSaver

variable {φ : Type} {target : Str → φ} {s t : Saving φ} {dir : Str} {data : Payload}

/-- Every file is opened and every write succeeds. -/
def AllSucceed (s : Saving φ) : Label Ec Unit Act → Prop
  | .call (.next (.tried true true)) => True
  | .call (.next _) => s.state.todo = []
  | .call (.complete _ e) => e = .success
  | _ => True

theorem Keeping.sound (h : Keeping dir data s) (sized : data.first.length = data.second.length)
    {l : Label Ec Unit Act} (good : AllSucceed s l) : Sound target s l ∧ Clean s l := by
  have some (todo : s.state.todo ≠ []) : s.state.contents ≠ [] := by
    intro none
    have balance := h.sized
    rw [none, List.length_nil] at balance
    exact todo (List.length_eq_zero_iff.mp (by omega))
  cases l with
  | call a =>
    cases a with
    | next o =>
      cases o with
      | throws => exact ⟨trivial, trivial⟩
      | tried stream device =>
        cases device with
        | false =>
          have none : s.state.todo = [] := by cases stream <;> exact good
          exact ⟨.inl none, none⟩
        | true =>
          refine ⟨?_, trivial⟩
          cases stream with
          | false => exact .inl good
          | true =>
            by_cases todo : s.state.todo = []
            · exact .inl todo
            · exact .inr ⟨some todo, .inl rfl⟩
      | beyond stream content => exact ⟨good, trivial⟩
    | transfer k n => exact ⟨trivial, trivial⟩
    | complete k e => exact ⟨trivial, .inl good⟩
  | run k o => exact ⟨trivial, trivial⟩
  | finish k e => exact ⟨trivial, trivial⟩

/-- A save whose paths and contents are as many leaves the loop only by an exception of the
file system. -/
structure Accepted (s : Saving φ) : Prop where
  sized : s.state.exit = none → s.state.todo.length = s.state.contents.length
  exit : s.state.exit ≠ some .undefined ∧ ∀ e, s.state.exit = some (.threw e) → e = .filesystemError
  inRange : s.state.outOfRange = false

theorem Accepted.congr (h : Accepted s) (exit : t.state.exit = s.state.exit)
    (todo : t.state.todo = s.state.todo) (contents : t.state.contents = s.state.contents)
    (inRange : t.state.outOfRange = s.state.outOfRange) : Accepted t := by
  refine ⟨?_, ?_, inRange.trans h.inRange⟩
  · rw [exit, todo, contents]
    exact h.sized
  · rw [exit]
    exact h.exit

theorem Accepted.left {e : Exit} (exit : s.state.exit = some e)
    (known : e = .returned ∨ e = .threw .filesystemError) (inRange : s.state.outOfRange = false) : Accepted s := by
  refine ⟨fun running => ?_, ?_, inRange⟩
  · rw [exit] at running
    cases running
  · rw [exit]
    rcases known with rfl | rfl
    · simp
    · simp

/-- The save that a load with `save` starts: without a name and without a location to report. -/
def nested (uuid : Str) (data : Payload) (nullData : Bool) (disk : Disk φ Char) : Saving φ :=
  saveASync [] (.success (some data)) nullData uuid none disk

theorem nested_state {uuid : Str} {nullData : Bool} {disk : Disk φ Char} (some : data.first ≠ [])
    (sized : data.first.length = data.second.length) :
    nested uuid data nullData disk = ⟨{
      filename := uuid ++ "/".toList, data, disk
      todo := data.first
      contents := data.second
      remainingWrites := data.first.length }, []⟩ := by
  have contents : data.second ≠ [] := by
    intro none
    rw [none, List.length_nil, List.length_eq_zero_iff] at sized
    exact some sized
  simp [nested, saveASync, contents, destination]

theorem nested_keeping {uuid : Str} {nullData : Bool} {disk : Disk φ Char} (some : data.first ≠ [])
    (sized : data.first.length = data.second.length) :
    Keeping (uuid ++ "/".toList) data (nested uuid data nullData disk) := by
  have contents : ¬ (data.second = [] ∧ nullData = true) := by
    rintro ⟨none, _⟩
    rw [none, List.length_nil, List.length_eq_zero_iff] at sized
    exact some sized
  have kept : Keeping (destination [] uuid) data (nested uuid data nullData disk) := keeping_start contents
  exact kept

variable [DecidableEq φ]

theorem Accepted.pass {o : Opening} (h : Accepted s) (running : s.state.exit = none)
    (pass : Pass target s o t) : Accepted t := by
  have sized := h.sized running
  cases pass with
  | returns o done => exact .left rfl (.inl rfl) h.inRange
  | throws hp => exact .left rfl (.inr rfl) h.inRange
  | refused stream hp _ => exact .left rfl (.inl rfl) (by cases stream <;> exact h.inRange)
  | outOfRange stream content hp none _ =>
    rw [hp, none] at sized
    cases sized
  | @starts path content todo contents stream hp some regular =>
    rw [hp, some, List.length_cons, List.length_cons] at sized
    cases stream with
    | true | false =>
      refine ⟨fun _ => Nat.succ.inj sized, ?_, h.inRange⟩
      change s.state.exit ≠ _ ∧ ∀ e, s.state.exit = _ → _
      simp [running]

theorem Accepted.step {l : Label Ec Unit Act} (h : Accepted s)
    (step : (machine target).step s l = some t) : Accepted t := by
  rcases Machine.step_cases step with ⟨_, _, _, _, _, hc, _⟩ | ⟨k, _, x, e, rest, rfl, hk, hr⟩ | ⟨a, rfl, ha⟩
  · cases hc
  · have keeps (m : Save φ) : (countDown m).exit = m.exit ∧ (countDown m).todo = m.todo ∧
        (countDown m).contents = m.contents ∧ (countDown m).outOfRange = m.outOfRange := by
      rw [countDown_eq]
      exact ⟨rfl, rfl, rfl, rfl⟩
    cases x with
    | write file content written =>
      obtain rfl := Option.some.inj hr
      cases e with
      | success | error =>
        obtain ⟨exit, todo, contents, inRange⟩ := keeps _
        exact h.congr exit todo contents inRange
    | handleWrite =>
      obtain rfl := Option.some.inj hr
      exact h.congr rfl rfl rfl rfl
  · cases a with
    | next o =>
      obtain ⟨running, pass⟩ := next_pass ha
      exact h.pass running pass
    | transfer k n =>
      obtain ⟨_, _, _, _, _, rfl⟩ := transfer_cases ha
      exact h.congr rfl rfl rfl rfl
    | complete k e =>
      obtain ⟨_, _, _, _, _, rfl⟩ := complete_cases ha
      exact h.congr rfl rfl rfl rfl

section Nested

variable {uuid : Str} {data : Payload} {nullData : Bool} {disk : Disk φ Char}

/-- The end of a save: `handle_write` has run once, every entry is stored in a file of its
own, and the files hold the contents. -/
structure OneEach (target : Str → φ) (all : List (Str × Str)) (s : Saving φ) : Prop where
  completed : s.state.handleWrites = 1
  stored : s.state.stored.Perm all
  distinct : (s.state.stored.map fun p => target p.1).Nodup
  contents : ∀ p ∈ s.state.stored, s.state.disk (target p.1) = some p.2

/-- A step of a save of which every step succeeds keeps everything. -/
theorem Keeping.succeeds {l : Label Ec Unit Act} (h : Keeping dir data s)
    (sized : data.first.length = data.second.length) (good : AllSucceed s l)
    (step : (machine target).step s l = some t) : Keeping dir data t := by
  obtain ⟨sound, clean⟩ := h.sound sized good
  rcases h.step sound clean step with kept | ⟨rfl, todo, _⟩
  · exact kept
  · exact absurd good todo

theorem reaches_keeping (some : data.first ≠ []) (sized : data.first.length = data.second.length)
    (reach : Reaches (machine target).step AllSucceed (nested uuid data nullData disk) s) :
    Reaches (machine target).step (Sound target) (nested uuid data nullData disk) s ∧
      Keeping (uuid ++ "/".toList) data s := by
  induction reach with
  | start => exact ⟨.start, nested_keeping some sized⟩
  | next _ good step ih =>
    exact ⟨.next ih.1 (ih.2.sound sized good).1 step, ih.2.succeeds sized good step⟩

theorem nested_ends (some : data.first ≠ []) (sized : data.first.length = data.second.length)
    (reach : Reaches (machine target).step AllSucceed (nested uuid data nullData disk) s)
    (left : s.state.exit ≠ none) (idle : s.pool = []) :
    s.state.handleWrites = 1 ∧ s.state.stored.Perm (entries (uuid ++ "/".toList) data.first data.second) ∧
      ∀ p ∈ s.state.stored, namesFile p.1 = true := by
  obtain ⟨sound, kept⟩ := reaches_keeping some sized reach
  have counted : Counted s :=
    sound.invariant (fun _ _ _ ht good step => ht.step good step) (counted_saveASync (.inl some))
  obtain ⟨exit, todo⟩ := kept.running.resolve_left left
  have account := kept.account
  have none : entries s.state.filename [] s.state.contents = [] := rfl
  have blank : queued s = [] := by simp [queued, idle]
  rw [todo, none, blank, List.append_nil, List.append_nil] at account
  have regular := kept.regular
  rw [blank, List.append_nil] at regular
  refine ⟨?_, account, regular⟩
  rcases counted.settled left idle with ⟨e, threw⟩ | once
  · rw [exit] at threw
    cases threw
  · exact once

theorem nested_oneEach (some : data.first ≠ []) (sized : data.first.length = data.second.length)
    (distinct : (data.first.map fun path => target (uuid ++ "/".toList ++ path)).Nodup)
    (reach : Reaches (machine target).step AllSucceed (nested uuid data nullData disk) s)
    (left : s.state.exit ≠ none) (idle : s.pool = []) :
    OneEach target (entries (uuid ++ "/".toList) data.first data.second) s := by
  obtain ⟨sound, _⟩ := reaches_keeping some sized reach
  obtain ⟨once, stored, _⟩ := nested_ends some sized reach left idle
  have intact : Intact target s.pool s.state :=
    sound.invariant (P := fun s => Intact target s.pool s.state) (fun _ _ _ ht good step => ht.step good step)
      (intact_saveASync (by simpa [destination] using distinct))
  refine ⟨once, stored, ?_, intact.stored⟩
  refine ((stored.map fun p => target p.1).nodup_iff).mpr ?_
  rw [entries_targets sized]
  exact distinct

def weight (x : Entry Handler Ec) : Nat :=
  match x with
  | ⟨.write _ content written, none⟩ => if written < content.length then 3 else 2
  | _ => 1

/-- How many steps are left when every file is opened and every write succeeds at once. -/
def left (s : Saving φ) : Nat :=
  (if s.state.exit = none then 1 else 0) + 4 * s.state.todo.length + (s.pool.map weight).sum

theorem Keeping.progress (h : Keeping dir data s) (sized : data.first.length = data.second.length)
    (regular : ∀ path ∈ s.state.todo, namesFile (s.state.filename ++ path) = true)
    (busy : ¬ (s.state.exit ≠ none ∧ s.pool = [])) :
    ∃ l t, AllSucceed s l ∧ (machine target).step s l = some t ∧ left t < left s := by
  by_cases running : s.state.exit = none
  · refine ⟨.call (.next (.tried true true)), ?_⟩
    cases hp : s.state.todo with
    | nil =>
      refine ⟨s.modify (Save.leave .returned), trivial, ?_, ?_⟩
      · simp [machine, Machine.step, Act.perform, next, running, hp]
      · simp [left, Save.leave, running]
    | cons path todo =>
      have balance := h.sized
      rw [hp, List.length_cons] at balance
      cases hc : s.state.contents with
      | nil =>
        rw [hc, List.length_nil] at balance
        omega
      | cons content contents =>
        refine ⟨_, trivial, next_starts running hp hc (regular path (by simp [hp])), ?_⟩
        have light : weight ⟨.write (s.state.filename ++ path) content 0, none⟩ ≤ 3 := by
          simp only [weight]
          split <;> omega
        simp only [left, Loop.start_state, Loop.modify_state, Loop.start_pool, Loop.modify_pool, List.map_append,
          List.sum_append, List.map_cons, List.map_nil, List.sum_cons, List.sum_nil, hp, List.length_cons,
          Save.truncate, Save.openDevice, running, if_true]
        omega
  · have queued : s.pool ≠ [] := fun idle => busy ⟨running, idle⟩
    obtain ⟨x, rest, hx⟩ := List.exists_cons_of_ne_nil queued
    obtain ⟨outcome, file, content, written, hw, bound⟩ := h.writing x (by simp [hx])
    obtain ⟨handler, o⟩ := x
    obtain rfl : handler = .write file content written := hw
    rcases outcome with rfl | rfl
    · by_cases more : written < content.length
      · have room : written + (content.length - written) ≤ content.length := by omega
        have step : transfer target 0 (content.length - written) s = some {
            state := s.state.pwrite target file written ((content.drop written).take (content.length - written))
            pool := s.pool.set 0 ⟨.write file content (written + (content.length - written)), none⟩ } := by
          simp only [transfer, hx, List.getElem?_cons_zero, if_pos room]
        refine ⟨.call (.transfer 0 (content.length - written)), _, trivial, step, ?_⟩
        have before : weight ⟨.write file content written, none⟩ = 3 := if_pos more
        have after : weight ⟨.write file content (written + (content.length - written)), none⟩ = 2 :=
          if_neg (by omega)
        simp only [left, hx, List.set_cons_zero, List.map_cons, List.sum_cons, before, after, Save.pwrite,
          running, if_false]
        omega
      · have whole : written = content.length := by omega
        have step : complete 0 .success s =
            some { s with pool := s.pool.set 0 ⟨.write file content written, some .success⟩ } := by
          simp only [complete, hx, List.getElem?_cons_zero, if_pos (Or.inr whole)]
        refine ⟨.call (.complete 0 .success), _, rfl, step, ?_⟩
        have before : weight ⟨.write file content written, none⟩ = 2 := if_neg more
        have after : weight ⟨.write file content written, some .success⟩ = 1 := rfl
        simp only [left, hx, List.set_cons_zero, List.map_cons, List.sum_cons, before, after]
        omega
    · refine ⟨.run 0 (), (⟨MNNSaver.written file content .success s.state, rest⟩ : Saving φ), trivial, ?_, ?_⟩
      · simp [machine, Machine.step, takeAt, hx, Handler.run, Loop.modify]
      · obtain ⟨_, _, todo, _, _, exit⟩ :=
          countDown_keeps { s.state with stored := s.state.stored ++ [(file, content)] }
        have taken : weight ⟨.write file content written, some .success⟩ = 1 := rfl
        change left ⟨countDown { s.state with stored := s.state.stored ++ [(file, content)] }, rest⟩ < left s
        simp only [left, hx, List.map_cons, List.sum_cons, taken, todo, exit]
        omega

/-- No step makes a path come to the loop that was not to come. -/
theorem todo_step {l : Label Ec Unit Act} (step : (machine target).step s l = some t) :
    t.state.filename = s.state.filename ∧ ∀ path ∈ t.state.todo, path ∈ s.state.todo := by
  rcases Machine.step_cases step with ⟨_, _, _, _, _, hc, _⟩ | ⟨k, _, x, e, rest, rfl, hk, hr⟩ | ⟨a, rfl, ha⟩
  · cases hc
  · cases x with
    | write file content written =>
      obtain rfl := Option.some.inj hr
      cases e with
      | success | error =>
        obtain ⟨_, _, todo, filename, _, _⟩ := countDown_keeps _
        exact ⟨filename, fun path h => todo ▸ h⟩
    | handleWrite =>
      obtain rfl := Option.some.inj hr
      exact ⟨rfl, fun _ h => h⟩
  · cases a with
    | next o =>
      have tail {path : Str} {todo : List Str} (hp : s.state.todo = path :: todo) :
          ∀ p ∈ todo, p ∈ s.state.todo := by
        intro p h
        rw [hp]
        exact List.mem_cons_of_mem path h
      cases (next_pass ha).2 with
      | returns o done => exact ⟨rfl, fun _ h => h⟩
      | throws hp => exact ⟨rfl, tail hp⟩
      | refused stream hp _ => cases stream <;> exact ⟨rfl, tail hp⟩
      | outOfRange stream content hp _ _ => cases stream <;> exact ⟨rfl, tail hp⟩
      | starts stream hp _ _ => cases stream <;> exact ⟨rfl, tail hp⟩
    | transfer k n =>
      obtain ⟨_, _, _, _, _, rfl⟩ := transfer_cases ha
      exact ⟨rfl, fun _ h => h⟩
    | complete k e =>
      obtain ⟨_, _, _, _, _, rfl⟩ := complete_cases ha
      exact ⟨rfl, fun _ h => h⟩

/-- When all paths name files, the save can go on to its end. -/
theorem nested_finishes (some : data.first ≠ []) (sized : data.first.length = data.second.length)
    (regular : ∀ path ∈ data.first, namesFile (uuid ++ "/".toList ++ path) = true) :
    ∃ t, Reaches (machine target).step AllSucceed (nested uuid data nullData disk) t ∧
      t.state.exit ≠ none ∧ t.pool = [] := by
  let goes (s : Saving φ) : Prop := Keeping (uuid ++ "/".toList) data s ∧
    ∀ path ∈ s.state.todo, namesFile (s.state.filename ++ path) = true
  have start : goes (nested uuid data nullData disk) := by
    refine ⟨nested_keeping some sized, ?_⟩
    rw [nested_state some sized]
    exact regular
  have keep (s : Saving φ) (l : Label Ec Unit Act) (t : Saving φ) (h : goes s) (good : AllSucceed s l)
      (step : (machine target).step s l = Option.some t) : goes t := by
    obtain ⟨filename, todo⟩ := todo_step step
    refine ⟨h.1.succeeds sized good step, ?_⟩
    intro path hp
    rw [filename]
    exact h.2 path (todo path hp)
  exact Reaches.ends left keep (fun s h busy => h.1.progress sized h.2 busy) start

end Nested

/-- Every file of a payload is kept by a load that saves: the payload is well formed, the
nested save does not throw on it, and without a failure it stores one file for each entry. -/
structure KeepsEveryFile (target : Str → φ) (uuid : Str) (data : Payload) : Prop where
  nonempty : data.first ≠ []
  sized : data.first.length = data.second.length
  named : ∀ path ∈ data.first, filename path ≠ []
  accepted : ∀ nullData disk s, Reaches (machine target).step Free (nested uuid data nullData disk) s →
    (s.state.exit ≠ some .undefined ∧ ∀ e, s.state.exit = some (.threw e) → e = .filesystemError) ∧
      s.state.outOfRange = false
  stored : ∀ nullData disk s, Reaches (machine target).step AllSucceed (nested uuid data nullData disk) s →
    s.state.exit ≠ none → s.pool = [] →
    OneEach target (entries (uuid ++ "/".toList) data.first data.second) s

theorem nested_accepted {uuid : Str} {data : Payload} {nullData : Bool} {disk : Disk φ Char}
    (some : data.first ≠ []) (sized : data.first.length = data.second.length)
    (reach : Reaches (machine target).step Free (nested uuid data nullData disk) s) : Accepted s := by
  refine reach.invariant (fun _ _ _ ht _ step => ht.step step) ?_
  rw [nested_state some sized]
  exact ⟨fun _ => sized, by simp, rfl⟩

theorem regular_of_stored {uuid : Str} {data : Payload} {stored : List (Str × Str)}
    (sized : data.first.length = data.second.length)
    (perm : stored.Perm (entries (uuid ++ "/".toList) data.first data.second))
    (regular : ∀ p ∈ stored, namesFile p.1 = true) :
    ∀ path ∈ data.first, namesFile (uuid ++ "/".toList ++ path) = true := by
  intro path hp
  have paths : (data.first.zip data.second).map Prod.fst = data.first := List.map_fst_zip (by omega)
  rw [← paths] at hp
  obtain ⟨e, he, rfl⟩ := List.mem_map.mp hp
  have entry : (uuid ++ "/".toList ++ e.1, e.2) ∈ entries (uuid ++ "/".toList) data.first data.second :=
    List.mem_map.mpr ⟨e, he, rfl⟩
  exact regular _ (perm.mem_iff.mpr entry)

/-- A payload is kept if and only if it is well formed and its entries are different files. -/
theorem keepsEveryFile_iff {uuid : Str} {data : Payload} :
    KeepsEveryFile target uuid data ↔
      data.first ≠ [] ∧ data.first.length = data.second.length ∧ (∀ path ∈ data.first, filename path ≠ []) ∧
        ((∀ path ∈ data.first, namesFile (uuid ++ "/".toList ++ path) = true) →
          (data.first.map fun path => target (uuid ++ "/".toList ++ path)).Nodup) := by
  constructor
  · intro h
    refine ⟨h.nonempty, h.sized, h.named, fun regular => ?_⟩
    obtain ⟨t, reach, left, idle⟩ : ∃ t, Reaches (machine target).step AllSucceed
        (nested uuid data false fun _ => none) t ∧ t.state.exit ≠ none ∧ t.pool = [] :=
      nested_finishes h.nonempty h.sized regular
    have each := h.stored false (fun _ => none) t reach left idle
    have targets := (each.stored.map fun p => target p.1).nodup_iff.mp each.distinct
    rw [entries_targets h.sized] at targets
    exact targets
  · rintro ⟨nonempty, sized, named, distinct⟩
    refine ⟨nonempty, sized, named, ?_, ?_⟩
    · intro nullData disk s reach
      have kept := nested_accepted nonempty sized reach
      exact ⟨kept.exit, kept.inRange⟩
    · intro nullData disk s reach left idle
      obtain ⟨_, stored, regular⟩ := nested_ends nonempty sized reach left idle
      exact nested_oneEach nonempty sized (distinct (regular_of_stored sized stored regular)) reach left idle

/-- One file is kept if and only if it has a name. -/
theorem keepsOneFile_iff {uuid name content : Str} :
    KeepsEveryFile target uuid ⟨[name], [content]⟩ ↔ filename name ≠ [] := by
  rw [keepsEveryFile_iff]
  simp

end MNNSaver

namespace IPFSDevice

variable {φ : Type} [DecidableEq φ] (target : Str → φ) (uuid : Str)

/-- A content with a file, whose file names are not empty, and whose files are stored apart. -/
def Storable (content : UnixFSContent) (file : Str) : Prop :=
  content.files ≠ [] ∧
    if content.singleFile then
      if file = [] then ∀ first ∈ content.files.head?, filename first.path ≠ [] else filename file ≠ []
    else
      (∀ f ∈ content.files, filename f.path ≠ []) ∧
        ((∀ f ∈ content.files, MNNSaver.namesFile (uuid ++ "/".toList ++ f.path) = true) →
          (content.files.map fun f => target (uuid ++ "/".toList ++ f.path)).Nodup)

theorem keepsContent_iff (content : UnixFSContent) (file : Str) :
    MNNSaver.KeepsEveryFile target uuid (unixFSPayload content file) ↔ Storable target uuid content file := by
  obtain ⟨singleFile, files⟩ := content
  cases singleFile with
  | true =>
    cases files with
    | nil => simp [unixFSPayload, Storable, MNNSaver.keepsEveryFile_iff]
    | cons first rest =>
      simp only [unixFSPayload, Storable, if_true, MNNSaver.keepsOneFile_iff]
      by_cases unnamed : file = []
      · simp [unnamed]
      · simp [unnamed]
  | false =>
    rw [MNNSaver.keepsEveryFile_iff]
    simp [unixFSPayload, Storable, Function.comp_def]

end IPFSDevice

section Claim

variable {φ : Type} [DecidableEq φ] (target : Str → φ) (uuid : Str)

/-- What a load delivers is kept by the save it starts: from the web if and only if the path of
the URL does not end with a separator, from IPFS if and only if the content is storable, and
from the file system always, but for a path that ends with a separator behind a NUL. -/
theorem load_then_save_keeps_iff :
    (∀ url, (∀ data, HTTPDevice.Delivers url data → MNNSaver.KeepsEveryFile target uuid data) ↔
      ((parseHTTPUrl url).1 = true → filename (parseHTTPUrl url).2.path ≠ [])) ∧
    (∀ url, (∀ data, WSDevice.Delivers url data → MNNSaver.KeepsEveryFile target uuid data) ↔
      ((parseHTTPUrl url).1 = true → filename (parseHTTPUrl url).2.path ≠ [])) ∧
    (∀ file data, IPFSDevice.Delivers file data ↔ ∃ content, data = IPFSDevice.unixFSPayload content file) ∧
    (∀ file content, MNNSaver.KeepsEveryFile target uuid (IPFSDevice.unixFSPayload content file) ↔
      IPFSDevice.Storable target uuid content file) ∧
    (∀ name, (∀ data, MNNLoader.Delivers name data → MNNSaver.KeepsEveryFile target uuid data) ↔
      (MNNSaver.namesFile name = true → filename name ≠ [])) ∧
    ∀ name data, nul ∉ name → MNNLoader.Delivers name data → MNNSaver.KeepsEveryFile target uuid data := by
  have oneFile {path content : Str} (named : filename path ≠ []) :
      MNNSaver.KeepsEveryFile target uuid ⟨[filename path], [content]⟩ := by
    rw [MNNSaver.keepsOneFile_iff, filename_filename]
    exact named
  have nameOf {path content : Str} (keeps : MNNSaver.KeepsEveryFile target uuid ⟨[filename path], [content]⟩) :
      filename path ≠ [] := by
    rw [MNNSaver.keepsOneFile_iff, filename_filename] at keeps
    exact keeps
  refine ⟨?_, ?_, IPFSDevice.delivers_iff, ?_, ?_, ?_⟩
  · intro url
    constructor
    · intro keeps parsed
      exact nameOf (keeps _ (HTTPDevice.delivers_of_parsed parsed []))
    · intro named data delivers
      obtain ⟨parsed, content, rfl⟩ := HTTPDevice.delivered_file delivers
      exact oneFile (named parsed)
  · intro url
    constructor
    · intro keeps parsed
      exact nameOf (keeps _ (WSDevice.delivers_of_parsed parsed []))
    · intro named data delivers
      obtain ⟨parsed, content, rfl⟩ := WSDevice.delivered_file delivers
      exact oneFile (named parsed)
  · intro file content
    exact IPFSDevice.keepsContent_iff target uuid content file
  · intro name
    constructor
    · intro keeps named
      exact nameOf (keeps _ (MNNLoader.delivers_of_named named []))
    · intro last data delivers
      obtain ⟨named, content, rfl⟩ := MNNLoader.delivered_file delivers
      exact oneFile (last named)
  · intro name data plain delivers
    obtain ⟨named, content, rfl⟩ := MNNLoader.delivered_file delivers
    exact oneFile (MNNLoader.filename_of_named plain named)

end Claim

/-- `https://h/` delivers a file without a name, and a single file without a file is delivered
as nothing, on which the nested save throws. -/
theorem nameless_and_empty_loads :
    (HTTPDevice.Delivers "h/".toList ⟨[[]], [['x']]⟩ ∧
      ¬ MNNSaver.KeepsEveryFile (id : Str → Str) "u".toList ⟨[[]], [['x']]⟩) ∧
    IPFSDevice.Delivers [] ⟨[], []⟩ ∧ ¬ MNNSaver.KeepsEveryFile (id : Str → Str) "u".toList ⟨[], []⟩ ∧
      (MNNSaver.nested "u".toList ⟨[], []⟩ true fun _ : Str => none).state.exit =
        some (.threw (.rangeError "Can not save with null data".toList)) := by
  have parsed : (parseHTTPUrl "h/".toList).1 = true := by decide
  refine ⟨⟨HTTPDevice.delivers_of_parsed parsed ['x'], ?_⟩, ?_, ?_, ?_⟩
  · exact fun keeps => keeps.named [] (by simp) (by decide)
  · exact (IPFSDevice.delivers_iff _ _).mpr ⟨⟨true, []⟩, rfl⟩
  · exact fun keeps => keeps.nonempty rfl
  · simp [MNNSaver.nested, MNNSaver.saveASync]

end AsyncIOManager
