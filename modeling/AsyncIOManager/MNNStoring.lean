import AsyncIOManager.MNNCompletion

namespace AsyncIOManager

open Reactor Files

namespace MNNSaver

variable {φ : Type} {target : Str → φ} {s t : Saving φ} {filename : Str} {data : Payload}

/-- The file and the content of a queued write. -/
def Handler.entry : Handler → Option (Str × Str)
  | write file content _ => some (file, content)
  | handleWrite => none

/-- The files that a payload is to be stored in. -/
def entries (filename : Str) (first second : List Str) : List (Str × Str) :=
  (first.zip second).map fun e => (filename ++ e.1, e.2)

def queued (s : Saving φ) : List (Str × Str) := s.pool.filterMap fun x => x.handler.entry

/-- No file fails to be opened, and no write fails as long as the loop has not thrown. -/
def Clean (s : Saving φ) : Label Ec Unit Act → Prop
  | .call (.next (.tried _ false)) => s.state.todo = []
  | .call (.complete _ e) => e = .success ∨ s.state.exit = some (.threw .filesystemError)
  | _ => True

instance (s : Saving φ) (l : Label Ec Unit Act) : Decidable (Clean s l) :=
  match l with
  | .call (.next (.tried _ false)) => inferInstanceAs (Decidable (_ = _))
  | .call (.next (.tried _ true)) => .isTrue trivial
  | .call (.next .throws) => .isTrue trivial
  | .call (.next (.beyond _ _)) => .isTrue trivial
  | .call (.transfer _ _) => .isTrue trivial
  | .call (.complete _ _) => inferInstanceAs (Decidable (_ ∨ _))
  | .run _ _ => .isTrue trivial
  | .finish _ _ => .isTrue trivial

theorem entries_targets (sized : data.first.length = data.second.length) :
    (entries filename data.first data.second).map (fun p => target p.1) =
      data.first.map fun path => target (filename ++ path) := by
  have paths : (data.first.zip data.second).map Prod.fst = data.first := List.map_fst_zip (by omega)
  have parts : data.first.map (fun path => target (filename ++ path)) =
      ((data.first.zip data.second).map Prod.fst).map fun path => target (filename ++ path) := by rw [paths]
  rw [parts, entries, List.map_map, List.map_map]
  rfl

/-- A save that has met no failure: what is stored, written and still to come is everything. -/
structure Keeping (filename : Str) (data : Payload) (s : Saving φ) : Prop where
  sized : s.state.todo.length + data.second.length = s.state.contents.length + data.first.length
  running : s.state.exit = none ∨ s.state.exit = some .returned ∧ s.state.todo = []
  account : (s.state.stored ++ (queued s ++ entries s.state.filename s.state.todo s.state.contents)).Perm
    (entries filename data.first data.second)
  regular : ∀ p ∈ s.state.stored ++ queued s, namesFile p.1 = true
  writing : ∀ x ∈ s.pool, (x.outcome = none ∨ x.outcome = some .success) ∧
    ∃ file content written, x.handler = .write file content written ∧ written ≤ content.length

/-- A write that gets further stays the write of its file. -/
theorem Keeping.set {k : Nat} {file content : Str} {m n : Nat} {o e : Option Ec} {u : Save φ}
    (h : Keeping filename data s) (hk : s.pool[k]? = some ⟨.write file content m, o⟩)
    (bound : n ≤ content.length) (success : e = none ∨ e = some .success)
    (same : u.todo = s.state.todo ∧ u.contents = s.state.contents ∧ u.exit = s.state.exit ∧
      u.stored = s.state.stored ∧ u.filename = s.state.filename) :
    Keeping filename data ⟨u, s.pool.set k ⟨.write file content n, e⟩⟩ := by
  obtain ⟨todo, contents, exit, stored, name⟩ := same
  obtain ⟨before, after⟩ := set_write (y := ⟨.write file content n, e⟩) hk
  have old : (queued s).Perm ((file, content) :: (s.pool.eraseIdx k).filterMap fun x => x.handler.entry) :=
    before.filterMap _
  have new : (queued ⟨u, s.pool.set k ⟨.write file content n, e⟩⟩).Perm
      ((file, content) :: (s.pool.eraseIdx k).filterMap fun x => x.handler.entry) := after.filterMap _
  have queue := new.trans old.symm
  refine ⟨?_, ?_, ?_, ?_, ?_⟩
  · rw [todo, contents]
    exact h.sized
  · rw [exit, todo]
    exact h.running
  · rw [stored, name, todo, contents]
    exact ((queue.append_right _).append_left _).trans h.account
  · intro p hp
    rw [stored] at hp
    exact h.regular p ((queue.append_left _).mem_iff.mp hp)
  · intro x hx
    rcases List.mem_or_eq_of_mem_set hx with old | rfl
    · exact h.writing x old
    · exact ⟨success, file, content, n, rfl, bound⟩

theorem Keeping.run {k : Nat} {x : Handler} {e : Ec} {rest : List (Entry Handler Ec)}
    (h : Keeping filename data s) (hk : takeAt s.pool k = some (⟨x, some e⟩, rest))
    (hr : x.run e () { s with pool := rest } = some t) : Keeping filename data t := by
  obtain ⟨success, file, content, written, rfl, _⟩ := h.writing _ (takeAt_mem hk)
  obtain rfl : e = .success := by simpa using success
  obtain rfl := Option.some.inj hr
  obtain ⟨disk, stored, todo, name, _, exit⟩ :=
    countDown_keeps { s.state with stored := s.state.stored ++ [(file, content)] }
  have contents : (countDown { s.state with stored := s.state.stored ++ [(file, content)] }).contents =
      s.state.contents := by rw [countDown_eq]
  have queue : (queued s).Perm ((file, content) :: rest.filterMap fun x => x.handler.entry) :=
    (takeAt_perm hk).filterMap _
  change Keeping filename data
    ⟨countDown { s.state with stored := s.state.stored ++ [(file, content)] }, rest⟩
  refine ⟨?_, ?_, ?_, ?_, ?_⟩
  · rw [todo, contents]
    exact h.sized
  · rw [exit, todo]
    exact h.running
  · rw [stored, name, todo, contents]
    refine List.Perm.trans ?_ h.account
    rw [List.append_assoc]
    exact ((queue.symm.append_right _).append_left _)
  · intro p hp
    rw [stored, List.append_assoc] at hp
    exact h.regular p ((queue.append_left _).mem_iff.mpr hp)
  · intro y hy
    exact h.writing y (takeAt_rest_mem hk hy)

/-- The state of a save of which the loop starts. -/
theorem keeping_start {uuid : Str} {nullData : Bool} {saveLocation : Option Str} {disk : Disk φ Char}
    (some : ¬ (data.second = [] ∧ nullData = true)) :
    Keeping (destination filename uuid) data
      (saveASync filename (.success (.some data)) nullData uuid saveLocation disk) := by
  rw [saveASync, if_neg some]
  exact ⟨Nat.add_comm _ _, .inl rfl, by simp [queued], by simp [queued], by simp⟩

variable [DecidableEq φ]

theorem Keeping.pass {o : Opening} (h : Keeping filename data s) (running : s.state.exit = none)
    (sound : Sound target s (.call (.next o))) (clean : Clean s (.call (.next o)))
    (pass : Pass target s o t) :
    Keeping filename data t ∨ o = .throws ∧ s.state.todo ≠ [] ∧
      t.state.exit = some (.threw .filesystemError) := by
  cases pass with
  | returns o done => exact .inl ⟨h.sized, .inr ⟨rfl, done⟩, h.account, h.regular, h.writing⟩
  | throws hp => exact .inr ⟨rfl, by simp [hp], rfl⟩
  | refused stream hp _ =>
    have none : s.state.todo = [] := clean
    rw [hp] at none
    cases none
  | outOfRange stream content hp _ _ =>
    rw [show s.state.todo = [] from sound] at hp
    cases hp
  | @starts path content todo contents stream hp some regular =>
    left
    have sized := h.sized
    rw [hp, some, List.length_cons, List.length_cons] at sized
    have account := h.account
    rw [hp, some] at account
    have writing : ∀ x ∈ s.pool ++ [⟨.write (s.state.filename ++ path) content 0, Option.none⟩],
        (x.outcome = none ∨ x.outcome = Option.some .success) ∧
          ∃ file content written, x.handler = Handler.write file content written ∧ written ≤ content.length := by
      intro x hx
      rcases List.mem_append.mp hx with old | new
      · exact h.writing x old
      · rw [List.mem_singleton.mp new]
        exact ⟨.inl rfl, _, _, _, rfl, Nat.zero_le _⟩
    have named : ∀ p ∈ s.state.stored ++ (queued s ++ [(s.state.filename ++ path, content)]),
        namesFile p.1 = true := by
      intro p hp
      rw [← List.append_assoc] at hp
      rcases List.mem_append.mp hp with old | new
      · exact h.regular p old
      · rw [List.mem_singleton.mp new]
        exact regular
    have less : todo.length + data.second.length = contents.length + data.first.length := by omega
    cases stream with
    | true | false =>
      refine ⟨less, .inl running, ?_, ?_, writing⟩
      · simpa [queued, entries, Handler.entry, List.filterMap_append, Save.streamed, Save.truncate,
          Save.openDevice] using account
      · simpa [queued, Handler.entry, List.filterMap_append, Save.streamed, Save.truncate,
          Save.openDevice] using named

/-- A step of a save without a failure keeps everything, or the loop throws. -/
theorem Keeping.step {l : Label Ec Unit Act} (h : Keeping filename data s) (sound : Sound target s l)
    (clean : Clean s l) (step : (machine target).step s l = some t) :
    Keeping filename data t ∨ l = .call (.next .throws) ∧ s.state.todo ≠ [] ∧
      t.state.exit = some (.threw .filesystemError) := by
  rcases Machine.step_cases step with ⟨_, _, _, _, _, hc, _⟩ | ⟨k, _, x, e, rest, rfl, hk, hr⟩ | ⟨a, rfl, ha⟩
  · cases hc
  · exact .inl (h.run hk hr)
  · cases a with
    | next o =>
      obtain ⟨running, pass⟩ := next_pass ha
      rcases h.pass running sound clean pass with kept | ⟨rfl, todo, threw⟩
      · exact .inl kept
      · exact .inr ⟨rfl, todo, threw⟩
    | transfer k n =>
      obtain ⟨file, content, written, hk, room, rfl⟩ := transfer_cases ha
      exact .inl (h.set hk room (.inl rfl) ⟨rfl, rfl, rfl, rfl, rfl⟩)
    | complete k e =>
      obtain ⟨file, content, written, hk, done, rfl⟩ := complete_cases ha
      have success : e = .success := by
        refine Or.resolve_right clean fun threw => ?_
        rcases h.running with running | ⟨returned, _⟩
        · rw [running] at threw
          cases threw
        · rw [returned] at threw
          cases threw
      subst success
      have all := done.resolve_left (by simp)
      exact .inl (h.set hk (by omega) (.inr rfl) ⟨rfl, rfl, rfl, rfl, rfl⟩)

/-- The loop is not entered again after an exception, and the location is assigned before it. -/
theorem step_frame {l : Label Ec Unit Act} (step : (machine target).step s l = some t) :
    t.state.saveLocation = s.state.saveLocation ∧ (s.state.exit ≠ none → t.state.exit = s.state.exit) := by
  rcases Machine.step_cases step with ⟨_, _, _, _, _, hc, _⟩ | ⟨k, _, x, e, rest, rfl, hk, hr⟩ | ⟨a, rfl, ha⟩
  · cases hc
  · have keeps (m : Save φ) : (countDown m).saveLocation = m.saveLocation ∧ (countDown m).exit = m.exit := by
      rw [countDown_eq]
      exact ⟨rfl, rfl⟩
    cases x with
    | write file content written =>
      obtain rfl := Option.some.inj hr
      cases e with
      | success | error =>
        obtain ⟨location, exit⟩ := keeps _
        exact ⟨location, fun _ => exit⟩
    | handleWrite =>
      obtain rfl := Option.some.inj hr
      exact ⟨rfl, fun _ => rfl⟩
  · cases a with
    | next o =>
      obtain ⟨running, pass⟩ := next_pass ha
      refine ⟨?_, fun left => absurd running left⟩
      cases pass with
      | returns o done => rfl
      | throws hp => rfl
      | refused stream hp _ => cases stream <;> rfl
      | outOfRange stream content hp _ _ => cases stream <;> rfl
      | starts stream hp _ _ => cases stream <;> rfl
    | transfer k n =>
      obtain ⟨_, _, _, _, _, rfl⟩ := transfer_cases ha
      exact ⟨rfl, fun _ => rfl⟩
    | complete k e =>
      obtain ⟨_, _, _, _, _, rfl⟩ := complete_cases ha
      exact ⟨rfl, fun _ => rfl⟩

end MNNSaver

end AsyncIOManager
