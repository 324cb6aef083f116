import AsyncIOManager.MNNSaver

namespace AsyncIOManager

open Reactor Files

namespace MNNSaver

variable {φ : Type} {target : Str → φ} {s t : Saving φ}

def Handler.isWrite : Handler → Bool
  | write _ _ _ => true
  | handleWrite => false

/-- The file that a queued write writes. -/
def Handler.file? : Handler → Option Str
  | write file _ _ => some file
  | handleWrite => none

def writes (s : Saving φ) : Nat := s.pool.countP fun x => x.handler.isWrite

def posted (s : Saving φ) : Nat := s.pool.countP fun x => !x.handler.isWrite

/-- How far a save is: its loop has started every file so far, or the first file could not
be opened, or the loop has thrown. -/
inductive Progress (s : Saving φ) : Prop
  | running : (s.state.exit = none ∨ s.state.exit = some .returned ∧ s.state.todo = []) →
      s.state.remainingWrites = writes s + s.state.todo.length → posted s = 0 →
      (s.state.handleWrites = if s.state.remainingWrites = 0 then 1 else 0) → Progress s
  | refused : s.state.exit = some .returned → writes s = 0 → s.state.handleWrites + posted s = 1 →
      Progress s
  | thrown (e : Exception) : s.state.exit = some (.threw e) → posted s = 0 → s.state.handleWrites = 0 →
      (s.pool = [] ∨ writes s < s.state.remainingWrites) → Progress s

structure Counted (s : Saving φ) : Prop where
  progress : Progress s
  bound : s.state.remainingWrites ≤ s.state.data.first.length

/-- What a queued write has done to its file. -/
def Writing (target : Str → φ) (disk : Disk φ Char) (x : Entry Handler Ec) : Prop :=
  match x.handler with
  | .write file content written => ∃ old, disk (target file) = some (overwritten old content written) ∧
      old.length ≤ content.length ∧ written ≤ content.length ∧
      (x.outcome = some .success → written = content.length)
  | .handleWrite => True

/-- The files that a save has to do with. -/
def files (pool : List (Entry Handler Ec)) (m : Save φ) : List Str :=
  pool.filterMap (fun x => x.handler.file?) ++ (m.stored.map Prod.fst ++ m.todo.map (m.filename ++ ·))

structure Intact (target : Str → φ) (pool : List (Entry Handler Ec)) (m : Save φ) : Prop where
  distinct : ((files pool m).map target).Nodup
  writing : ∀ x ∈ pool, Writing target m.disk x
  stored : ∀ p ∈ m.stored, m.disk (target p.1) = some p.2

/-- A pass of the loop throws, or opens a file for which there is a content not shorter than
what the stream leaves of the file, or cannot open the very first file. -/
def Sound (target : Str → φ) (s : Saving φ) : Label Ec Unit Act → Prop
  | .call (.next (.tried stream true)) => s.state.todo = [] ∨ s.state.contents ≠ [] ∧ (stream = true ∨
      ∀ path ∈ s.state.todo.head?, ∀ content ∈ s.state.contents.head?,
        ((s.state.disk (target (s.state.filename ++ path))).getD []).length ≤ content.length)
  | .call (.next (.tried _ false)) =>
    s.state.todo = [] ∨ s.state.todo.length = s.state.data.first.length
  | .call (.next (.beyond _ _)) => s.state.todo = []
  | _ => True

instance (target : Str → φ) (s : Saving φ) (l : Label Ec Unit Act) : Decidable (Sound target s l) :=
  match l with
  | .call (.next (.tried _ true)) => inferInstanceAs (Decidable (_ ∨ _))
  | .call (.next (.tried _ false)) => inferInstanceAs (Decidable (_ ∨ _))
  | .call (.next (.beyond _ _)) => inferInstanceAs (Decidable (_ = _))
  | .call (.next .throws) => .isTrue trivial
  | .call (.transfer _ _) => .isTrue trivial
  | .call (.complete _ _) => .isTrue trivial
  | .run _ _ => .isTrue trivial
  | .finish _ _ => .isTrue trivial

section Intact

variable {pool rest : List (Entry Handler Ec)} {m : Save φ} {x y : Entry Handler Ec} {file : Str}

theorem files_perm (h : pool.Perm rest) : (files pool m).Perm (files rest m) :=
  (h.filterMap _).append_right _

theorem files_cons (hx : x.handler.file? = some file) : files (x :: pool) m = file :: files pool m := by
  simp [files, hx]

theorem files_todo {path : Str} {todo : List Str} (h : m.todo = path :: todo) :
    (files pool m).Perm ((m.filename ++ path) :: files pool { m with todo }) := by
  let before := pool.filterMap (fun x => x.handler.file?) ++ m.stored.map Prod.fst
  let after := todo.map (m.filename ++ ·)
  have middle : (before ++ (m.filename ++ path) :: after).Perm ((m.filename ++ path) :: (before ++ after)) :=
    List.perm_middle
  simpa [files, h, before, after, List.append_assoc] using middle

theorem Intact.perm (h : Intact target pool m) (same : pool.Perm rest) : Intact target rest m := by
  refine ⟨?_, ?_, h.stored⟩
  · exact ((files_perm same).map target).nodup_iff.mp h.distinct
  · intro x hx
    exact h.writing x (same.mem_iff.mpr hx)

/-- The file of a queued write is its own. -/
theorem Intact.tail (h : Intact target (x :: pool) m) (hx : x.handler.file? = some file) :
    Intact target pool m ∧ target file ∉ (files pool m).map target := by
  have distinct := h.distinct
  rw [files_cons hx, List.map_cons, List.nodup_cons] at distinct
  exact ⟨⟨distinct.2, fun z hz => h.writing z (List.mem_cons_of_mem x hz), h.stored⟩, distinct.1⟩

/-- The file of the next pass of the loop is its own. -/
theorem Intact.todo (h : Intact target pool m) {path : Str} {todo : List Str} (hp : m.todo = path :: todo) :
    Intact target pool { m with todo } ∧
      target (m.filename ++ path) ∉ (files pool { m with todo }).map target := by
  have distinct := ((files_todo hp).map target).nodup_iff.mp h.distinct
  rw [List.map_cons, List.nodup_cons] at distinct
  exact ⟨⟨distinct.2, h.writing, h.stored⟩, distinct.1⟩

theorem Intact.cons (h : Intact target pool m) (hy : y.handler.file? = some file)
    (free : target file ∉ (files pool m).map target) (goes : Writing target m.disk y) :
    Intact target (y :: pool) m := by
  refine ⟨?_, ?_, h.stored⟩
  · rw [files_cons hy, List.map_cons, List.nodup_cons]
    exact ⟨free, h.distinct⟩
  · intro z hz
    rcases List.mem_cons.mp hz with rfl | hz
    · exact goes
    · exact h.writing z hz

theorem Intact.succeed {content : Str} (h : Intact target pool m)
    (free : target file ∉ (files pool m).map target) (whole : m.disk (target file) = some content) :
    Intact target pool { m with stored := m.stored ++ [(file, content)] } := by
  refine ⟨?_, h.writing, ?_⟩
  · have middle : (files pool { m with stored := m.stored ++ [(file, content)] }).Perm
        (file :: files pool m) := by
      let before := pool.filterMap (fun x => x.handler.file?) ++ m.stored.map Prod.fst
      let after := m.todo.map (m.filename ++ ·)
      have middle : (before ++ file :: after).Perm (file :: (before ++ after)) := List.perm_middle
      simpa [files, before, after, List.append_assoc] using middle
    refine (middle.map target).nodup_iff.mpr ?_
    rw [List.map_cons, List.nodup_cons]
    exact ⟨free, h.distinct⟩
  · intro p hp
    rcases List.mem_append.mp hp with hp | hp
    · exact h.stored p hp
    · obtain rfl := List.mem_singleton.mp hp
      exact whole

theorem Intact.congr {n : Save φ} (h : Intact target pool m) (disk : n.disk = m.disk)
    (stored : n.stored = m.stored) (todo : n.todo = m.todo) (filename : n.filename = m.filename) :
    Intact target pool n := by
  have same : files pool n = files pool m := by simp only [files, stored, todo, filename]
  refine ⟨by rw [same]; exact h.distinct, ?_, ?_⟩
  · rw [disk]
    exact h.writing
  · rw [disk, stored]
    exact h.stored

theorem Intact.post (h : Intact target pool m) {e : Ec} :
    Intact target (pool ++ [⟨.handleWrite, some e⟩]) m := by
  refine ⟨?_, ?_, h.stored⟩
  · have same : files (pool ++ [⟨.handleWrite, some e⟩]) m = files pool m := by
      simp [files, Handler.file?, List.filterMap_append]
    rw [same]
    exact h.distinct
  · intro x hx
    rcases List.mem_append.mp hx with hx | hx
    · exact h.writing x hx
    · obtain rfl := List.mem_singleton.mp hx
      trivial

/-- The callback of a write changes the two counts only. -/
theorem countDown_eq (m : Save φ) : countDown m =
    { m with remainingWrites := (countDown m).remainingWrites, handleWrites := (countDown m).handleWrites } := by
  simp only [countDown]
  split <;> rfl

theorem countDown_keeps (m : Save φ) :
    (countDown m).disk = m.disk ∧ (countDown m).stored = m.stored ∧ (countDown m).todo = m.todo ∧
      (countDown m).filename = m.filename ∧ (countDown m).data = m.data ∧ (countDown m).exit = m.exit := by
  rw [countDown_eq]
  exact ⟨rfl, rfl, rfl, rfl, rfl, rfl⟩

theorem Intact.countDown {pool : List (Entry Handler Ec)} {m : Save φ} (h : Intact target pool m) :
    Intact target pool (countDown m) := by
  obtain ⟨disk, stored, todo, filename, _, _⟩ := countDown_keeps m
  exact h.congr disk stored todo filename

variable [DecidableEq φ]

theorem Writing.put {disk : Disk φ Char} {f : φ} {content : Str}
    (h : Writing target disk x) (other : ∀ file, x.handler.file? = some file → target file ≠ f) :
    Writing target (disk.put f content) x := by
  obtain ⟨handler, outcome⟩ := x
  cases handler with
  | write file content written =>
    obtain ⟨old, now, short, within, done⟩ := h
    refine ⟨old, ?_, short, within, done⟩
    rw [Disk.put_other (other file rfl)]
    exact now
  | handleWrite => trivial

/-- A write to a file that no one else has to do with. -/
theorem Intact.put (h : Intact target pool m) {f : φ} (free : f ∉ (files pool m).map target)
    (content : Str) : Intact target pool { m with disk := m.disk.put f content } := by
  refine ⟨h.distinct, ?_, ?_⟩
  · intro x hx
    refine (h.writing x hx).put ?_
    intro file hf same
    have mem : file ∈ files pool m :=
      List.mem_append_left _ (List.mem_filterMap.mpr ⟨x, hx, hf⟩)
    exact free (List.mem_map.mpr ⟨file, mem, same⟩)
  · intro p hp
    have mem : p.1 ∈ files pool m :=
      List.mem_append_right _ (List.mem_append_left _ (List.mem_map_of_mem hp))
    have other : target p.1 ≠ f := fun same => free (List.mem_map.mpr ⟨p.1, mem, same⟩)
    change m.disk.put f content (target p.1) = some p.2
    rw [Disk.put_other other]
    exact h.stored p hp

end Intact

section Steps

/-- One write gets further, by a transfer or by its end. -/
theorem set_write {k : Nat} {x y : Entry Handler Ec} {pool : List (Entry Handler Ec)}
    (hk : pool[k]? = some x) :
    pool.Perm (x :: pool.eraseIdx k) ∧ (pool.set k y).Perm (y :: pool.eraseIdx k) := by
  obtain ⟨known, rfl⟩ := List.getElem?_eq_some_iff.mp hk
  exact ⟨(List.getElem_cons_eraseIdx_perm known).symm, List.set_perm_cons_eraseIdx known y⟩

theorem complete_cases {k : Nat} {e : Ec} (h : complete k e s = some t) :
    ∃ file content written, s.pool[k]? = some ⟨.write file content written, none⟩ ∧
      (e = .error ∨ written = content.length) ∧
      t = { s with pool := s.pool.set k ⟨.write file content written, some e⟩ } := by
  unfold complete at h
  split at h
  next file content written hk =>
    split at h
    next done => exact ⟨file, content, written, hk, done, (Option.some.inj h).symm⟩
    next => cases h
  next => cases h

theorem Intact.complete {k : Nat} {e : Ec} (h : Intact target s.pool s.state)
    (hs : complete k e s = some t) : Intact target t.pool t.state := by
  obtain ⟨file, content, written, hk, done, rfl⟩ := complete_cases hs
  obtain ⟨before, after⟩ := set_write (y := ⟨.write file content written, some e⟩) hk
  have all := h.perm before
  obtain ⟨rest, free⟩ := all.tail rfl
  obtain ⟨old, now, short, within, _⟩ := all.writing _ List.mem_cons_self
  have goes : Writing target s.state.disk ⟨.write file content written, some e⟩ := by
    refine ⟨old, now, short, within, ?_⟩
    rintro ⟨⟩
    exact done.resolve_left (by simp)
  exact (rest.cons rfl free goes).perm after.symm

theorem Intact.run {k : Nat} {x : Handler} {e : Ec} {rest : List (Entry Handler Ec)}
    (h : Intact target s.pool s.state) (hk : takeAt s.pool k = some (⟨x, some e⟩, rest))
    (hr : x.run e () { s with pool := rest } = some t) : Intact target t.pool t.state := by
  have all := h.perm (takeAt_perm hk)
  cases x with
  | write file content n =>
    obtain rfl := Option.some.inj hr
    obtain ⟨kept, free⟩ := all.tail rfl
    cases e with
    | success =>
      obtain ⟨old, now, short, _, done⟩ := all.writing _ List.mem_cons_self
      rw [done rfl, overwritten_whole short] at now
      exact (kept.succeed free now).countDown
    | error => exact kept.countDown
  | handleWrite =>
    obtain rfl := Option.some.inj hr
    have kept : Intact target rest s.state := by
      refine ⟨?_, fun y hy => all.writing y (List.mem_cons_of_mem _ hy), all.stored⟩
      exact all.distinct
    exact kept.congr rfl rfl rfl rfl

variable [DecidableEq φ]

/-- What the stream leaves of a save. -/
def Save.streamed (target : Str → φ) (stream : Bool) (file : Str) (m : Save φ) : Save φ :=
  if stream then m.truncate target file else m

/-- A pass of the loop. -/
inductive Pass (target : Str → φ) (s : Saving φ) : Opening → Saving φ → Prop
  | returns (o : Opening) : s.state.todo = [] → Pass target s o (s.modify (Save.leave .returned))
  | throws {path : Str} {todo : List Str} : s.state.todo = path :: todo →
      Pass target s .throws (s.modify fun m => { m with todo }.leave (.threw .filesystemError))
  | refused {path : Str} {todo : List Str} (stream : Bool) : s.state.todo = path :: todo →
      (stream = true → namesFile (s.state.filename ++ path) = true) →
      Pass target s (.tried stream false)
        ((s.modify fun m => ({ m with todo }.streamed target stream (m.filename ++ path)).leave .returned).post
          .handleWrite .success)
  | outOfRange {path : Str} {todo : List Str} (stream : Bool) (content : Str) : s.state.todo = path :: todo →
      s.state.contents = [] → namesFile (s.state.filename ++ path) = true →
      Pass target s (.beyond stream content)
        ((s.modify fun m => { ({ m with todo }.streamed target stream (m.filename ++ path)).openDevice target
          (m.filename ++ path) with outOfRange := true }).start (.write (s.state.filename ++ path) content 0))
  | starts {path content : Str} {todo contents : List Str} (stream : Bool) : s.state.todo = path :: todo →
      s.state.contents = content :: contents → namesFile (s.state.filename ++ path) = true →
      Pass target s (.tried stream true)
        ((s.modify fun m => { ({ m with todo }.streamed target stream (m.filename ++ path)).openDevice target
          (m.filename ++ path) with contents }).start (.write (s.state.filename ++ path) content 0))

theorem next_pass {o : Opening} (h : next target o s = some t) :
    s.state.exit = none ∧ Pass target s o t := by
  unfold next at h
  split at h
  next => cases h
  next running =>
    refine ⟨not_not.mp running, ?_⟩
    split at h
    next done =>
      obtain rfl := Option.some.inj h
      exact .returns o done
    next path todo hp =>
      cases o with
      | throws =>
        obtain rfl := Option.some.inj h
        exact .throws hp
      | tried stream device =>
        simp only at h
        split at h
        next => cases h
        next named =>
          cases device with
          | false =>
            obtain rfl := Option.some.inj h
            cases stream with
            | true => exact .refused true hp (fun _ => by simpa using named)
            | false => exact .refused false hp (fun stream => by cases stream)
          | true =>
            have regular : namesFile (s.state.filename ++ path) = true := by simpa using named
            rw [if_neg (by simp)] at h
            cases stream with
            | true | false =>
              split at h
              next => cases h
              next content contents some =>
                obtain rfl := Option.some.inj h
                exact .starts _ hp some regular
      | beyond stream content =>
        simp only at h
        split at h
        next => cases h
        next within =>
          obtain ⟨regular, none⟩ : namesFile (s.state.filename ++ path) = true ∧ s.state.contents = [] := by
            simpa using within
          obtain rfl := Option.some.inj h
          cases stream with
          | true | false => exact .outOfRange _ content hp none regular

/-- A pass that opens a file with a content starts its write. -/
theorem next_starts (running : s.state.exit = none) {path content : Str} {todo contents : List Str}
    (hp : s.state.todo = path :: todo) (hc : s.state.contents = content :: contents)
    (regular : namesFile (s.state.filename ++ path) = true) :
    next target (.tried true true) s =
      some ((s.modify fun m => { ({ m with todo }.truncate target (m.filename ++ path)).openDevice target
        (m.filename ++ path) with contents }).start (.write (s.state.filename ++ path) content 0)) := by
  simp [next, running, hp, regular, Save.truncate, Save.openDevice, Loop.modify, hc]

theorem transfer_cases {k n : Nat} (h : transfer target k n s = some t) :
    ∃ file content written, s.pool[k]? = some ⟨.write file content written, none⟩ ∧
      written + n ≤ content.length ∧
      t = {
        state := s.state.pwrite target file written ((content.drop written).take n)
        pool := s.pool.set k ⟨.write file content (written + n), none⟩ } := by
  unfold transfer at h
  split at h
  next file content written hk =>
    split at h
    next room => exact ⟨file, content, written, hk, room, (Option.some.inj h).symm⟩
    next => cases h
  next => cases h

theorem Intact.transfer {k n : Nat} (h : Intact target s.pool s.state)
    (hs : transfer target k n s = some t) : Intact target t.pool t.state := by
  obtain ⟨file, content, written, hk, room, rfl⟩ := transfer_cases hs
  obtain ⟨before, after⟩ := set_write (y := ⟨.write file content (written + n), none⟩) hk
  have all := h.perm before
  obtain ⟨rest, free⟩ := all.tail rfl
  obtain ⟨old, now, short, _, _⟩ := all.writing _ List.mem_cons_self
  have goes : Writing target (s.state.disk.put (target file)
      (Files.pwrite ((s.state.disk (target file)).getD []) written ((content.drop written).take n)))
      ⟨.write file content (written + n), none⟩ := by
    refine ⟨old, ?_, short, room, by simp⟩
    rw [Disk.put_self, now, Option.getD_some, pwrite_overwritten room]
  exact ((rest.put free _).cons rfl free goes).perm after.symm

/-- The stream empties a file that no one else has to do with. -/
theorem Intact.streamed {pool : List (Entry Handler Ec)} {m : Save φ} {file : Str}
    (h : Intact target pool m) (free : target file ∉ (files pool m).map target) (stream : Bool) :
    Intact target pool (m.streamed target stream file) := by
  cases stream with
  | true => exact (h.put free []).congr rfl rfl rfl rfl
  | false => exact h

theorem files_streamed (pool : List (Entry Handler Ec)) (m : Save φ) (stream : Bool) (file : Str) :
    files pool (m.streamed target stream file) = files pool m := by
  cases stream with
  | true | false => rfl

/-- What the stream has left of a file is not longer than its new content. -/
theorem opened_short {stream : Bool} {path content : Str} {todo contents : List Str}
    (sound : Sound target s (.call (.next (.tried stream true)))) (hp : s.state.todo = path :: todo)
    (some : s.state.contents = content :: contents) :
    (((Save.streamed target stream (s.state.filename ++ path) { s.state with todo }).disk
      (target (s.state.filename ++ path))).getD []).length ≤ content.length := by
  cases stream with
  | true => simp [Save.streamed, Save.truncate]
  | false => simpa [Sound, hp, some, Save.streamed] using sound

theorem Intact.pass {o : Opening} (h : Intact target s.pool s.state)
    (sound : Sound target s (.call (.next o))) (pass : Pass target s o t) :
    Intact target t.pool t.state := by
  cases pass with
  | returns o done => exact h.congr rfl rfl rfl rfl
  | throws hp => exact (h.todo hp).1.congr rfl rfl rfl rfl
  | @refused path todo stream hp _ =>
    obtain ⟨rest, free⟩ := h.todo hp
    have left : Intact target s.pool
        ((Save.streamed target stream (s.state.filename ++ path) { s.state with todo }).leave .returned) :=
      (rest.streamed free stream).congr rfl rfl rfl rfl
    exact left.post
  | outOfRange stream content hp _ _ =>
    rw [show s.state.todo = [] from sound] at hp
    cases hp
  | @starts path content todo contents stream hp some regular =>
    obtain ⟨rest, free⟩ := h.todo hp
    have emptied := rest.streamed free stream
    rw [← files_streamed s.pool _ stream (s.state.filename ++ path)] at free
    have short := opened_short sound hp some
    generalize hm : Save.streamed target stream (s.state.filename ++ path) { s.state with todo } = m
      at emptied free short
    have opened : Intact target s.pool { m.openDevice target (s.state.filename ++ path) with contents } :=
      (emptied.put free _).congr rfl rfl rfl rfl
    have goes : Writing target (m.openDevice target (s.state.filename ++ path)).disk
        ⟨.write (s.state.filename ++ path) content 0, none⟩ :=
      ⟨_, Disk.put_self .., short, Nat.zero_le _, by simp⟩
    have started := opened.cons (y := ⟨.write (s.state.filename ++ path) content 0, none⟩) rfl free goes
    rw [← hm] at started
    exact started.perm (List.perm_append_singleton _ _).symm

theorem Intact.step {l : Label Ec Unit Act} (h : Intact target s.pool s.state) (sound : Sound target s l)
    (hs : (machine target).step s l = some t) : Intact target t.pool t.state := by
  rcases Machine.step_cases hs with ⟨_, _, _, _, _, hc, _⟩ | ⟨k, _, x, e, rest, rfl, hk, hr⟩ | ⟨a, rfl, ha⟩
  · cases hc
  · exact h.run hk hr
  · cases a with
    | next o => exact h.pass sound (next_pass ha).2
    | transfer k n => exact h.transfer ha
    | complete k e => exact h.complete ha

end Steps

section Counts

theorem writes_set {k : Nat} {x y : Entry Handler Ec} {m : Save φ} (hk : s.pool[k]? = some x)
    (same : y.handler.isWrite = x.handler.isWrite) :
    writes ⟨m, s.pool.set k y⟩ = writes s ∧ posted ⟨m, s.pool.set k y⟩ = posted s := by
  obtain ⟨before, after⟩ := set_write (y := y) hk
  constructor
  · simp only [writes]
    rw [after.countP_eq, before.countP_eq, List.countP_cons, List.countP_cons, same]
  · simp only [posted]
    rw [after.countP_eq, before.countP_eq, List.countP_cons, List.countP_cons, same]

@[simp] theorem writes_modify (f : Save φ → Save φ) (s : Saving φ) : writes (s.modify f) = writes s := rfl
@[simp] theorem posted_modify (f : Save φ → Save φ) (s : Saving φ) : posted (s.modify f) = posted s := rfl

@[simp] theorem writes_start (file content : Str) (n : Nat) (s : Saving φ) :
    writes (s.start (.write file content n)) = writes s + 1 := by
  simp [writes, Handler.isWrite]

@[simp] theorem posted_start (file content : Str) (n : Nat) (s : Saving φ) :
    posted (s.start (.write file content n)) = posted s := by
  simp [posted, Handler.isWrite]

@[simp] theorem writes_post (e : Ec) (s : Saving φ) : writes (s.post .handleWrite e) = writes s := by
  simp [writes, Handler.isWrite]

@[simp] theorem posted_post (e : Ec) (s : Saving φ) : posted (s.post .handleWrite e) = posted s + 1 := by
  simp [posted, Handler.isWrite]

/-- A pass of the loop finds its writes counted. -/
theorem Progress.loop (h : Progress s) (running : s.state.exit = none) :
    s.state.remainingWrites = writes s + s.state.todo.length ∧ posted s = 0 ∧
      s.state.handleWrites = if s.state.remainingWrites = 0 then 1 else 0 := by
  cases h with
  | running _ remaining none called => exact ⟨remaining, none, called⟩
  | refused exit => rw [exit] at running; cases running
  | thrown e exit => rw [exit] at running; cases running

theorem Counted.take {k : Nat} {x : Handler} {e : Ec} {rest : List (Entry Handler Ec)}
    (hk : takeAt s.pool k = some (⟨x, some e⟩, rest)) :
    writes s = writes { s with pool := rest } + (if x.isWrite then 1 else 0) ∧
      posted s = posted { s with pool := rest } + if x.isWrite then 0 else 1 := by
  refine ⟨takeAt_countP _ hk, ?_⟩
  have count := takeAt_countP (fun y : Entry Handler Ec => !y.handler.isWrite) hk
  cases hx : x.isWrite with
  | true | false => simpa [posted, hx] using count

theorem countDown_counts {m : Save φ} (some : 0 < m.remainingWrites) :
    (countDown m).remainingWrites = m.remainingWrites - 1 ∧
      (countDown m).handleWrites = m.handleWrites + if m.remainingWrites = 1 then 1 else 0 := by
  have less : sizeSub m.remainingWrites 1 = m.remainingWrites - 1 := if_pos some
  simp only [countDown, less]
  by_cases last : m.remainingWrites = 1
  · simp [last, handleWrite]
  · have more : ¬ m.remainingWrites - 1 ≤ 0 := by omega
    simp [last, more]

/-- The callback of a write counts it down. -/
theorem Counted.countDown {m : Save φ} {rest : List (Entry Handler Ec)} (h : Counted s)
    (same : m.remainingWrites = s.state.remainingWrites ∧ m.handleWrites = s.state.handleWrites ∧
      m.todo = s.state.todo ∧ m.data = s.state.data ∧ m.exit = s.state.exit)
    (taken : writes s = writes ⟨m, rest⟩ + 1 ∧ posted s = posted ⟨m, rest⟩) :
    Counted ⟨MNNSaver.countDown m, rest⟩ := by
  obtain ⟨remaining, called, todo, data, exit⟩ := same
  obtain ⟨_, _, sameTodo, _, sameData, sameExit⟩ := countDown_keeps m
  have bound := h.bound
  have kept : writes ⟨MNNSaver.countDown m, rest⟩ = writes ⟨m, rest⟩ ∧
      posted ⟨MNNSaver.countDown m, rest⟩ = posted ⟨m, rest⟩ := ⟨rfl, rfl⟩
  cases h.progress with
  | running how count unposted before =>
    obtain ⟨less, more⟩ := countDown_counts (m := m) (by omega)
    refine ⟨.running ?_ ?_ (by omega) ?_, ?_⟩
    · change (MNNSaver.countDown m).exit = none ∨
        (MNNSaver.countDown m).exit = some .returned ∧ (MNNSaver.countDown m).todo = []
      rw [sameExit, sameTodo, exit, todo]
      exact how
    · change (MNNSaver.countDown m).remainingWrites =
        writes ⟨m, rest⟩ + (MNNSaver.countDown m).todo.length
      rw [less, sameTodo, todo]
      omega
    · change (MNNSaver.countDown m).handleWrites =
        if (MNNSaver.countDown m).remainingWrites = 0 then 1 else 0
      rw [less, more, called, before, if_neg (by omega)]
      by_cases last : m.remainingWrites = 1
      · rw [if_pos last, if_pos (by omega)]
      · rw [if_neg last, if_neg (by omega)]
    · change (MNNSaver.countDown m).remainingWrites ≤ (MNNSaver.countDown m).data.first.length
      rw [less, sameData, data]
      omega
  | refused _ idle => omega
  | thrown e thrown unposted before left =>
    rcases left with empty | left
    · simp [writes, empty] at taken
    · obtain ⟨less, more⟩ := countDown_counts (m := m) (by omega)
      rw [if_neg (by omega)] at more
      refine ⟨.thrown e (by simpa [sameExit, exit] using thrown) (by omega) (by simp [more, called, before])
        (.inr ?_), ?_⟩
      · change writes ⟨m, rest⟩ < (MNNSaver.countDown m).remainingWrites
        omega
      · change (MNNSaver.countDown m).remainingWrites ≤ (MNNSaver.countDown m).data.first.length
        rw [less, sameData, data]
        omega

theorem Counted.run {k : Nat} {x : Handler} {e : Ec} {rest : List (Entry Handler Ec)} (h : Counted s)
    (hk : takeAt s.pool k = some (⟨x, some e⟩, rest))
    (hr : x.run e () { s with pool := rest } = some t) : Counted t := by
  have counts := Counted.take hk
  cases x with
  | write file content n =>
    obtain rfl := Option.some.inj hr
    cases e with
    | success | error => exact h.countDown ⟨rfl, rfl, rfl, rfl, rfl⟩ ⟨counts.1, counts.2⟩
  | handleWrite =>
    obtain rfl := Option.some.inj hr
    simp only [Handler.isWrite, Bool.false_eq_true, if_false] at counts
    cases h.progress with
    | running _ _ unposted => omega
    | thrown _ _ unposted => omega
    | refused exit idle called =>
      refine ⟨.refused exit ?_ ?_, h.bound⟩
      · change writes { s with pool := rest } = 0
        omega
      · change s.state.handleWrites + 1 + posted { s with pool := rest } = 1
        omega

/-- A write that gets further is counted as before. -/
theorem Counted.set {k : Nat} {x y : Entry Handler Ec} {m : Save φ} (h : Counted s)
    (hk : s.pool[k]? = some x) (same : y.handler.isWrite = x.handler.isWrite)
    (state : m.remainingWrites = s.state.remainingWrites ∧ m.handleWrites = s.state.handleWrites ∧
      m.todo = s.state.todo ∧ m.data = s.state.data ∧ m.exit = s.state.exit) :
    Counted ⟨m, s.pool.set k y⟩ := by
  obtain ⟨remaining, called, todo, data, exit⟩ := state
  obtain ⟨writes, posted⟩ := writes_set (m := m) hk same
  refine ⟨?_, by simpa [remaining, data] using h.bound⟩
  cases h.progress with
  | running how count unposted before =>
    refine .running (by simpa [exit, todo] using how) ?_ (by omega) (by simpa [remaining, called] using before)
    rw [writes, remaining, todo]
    exact count
  | refused how idle before =>
    refine .refused (by simpa [exit] using how) (by omega) ?_
    rw [posted, called]
    exact before
  | thrown e how unposted before left =>
    refine .thrown e (by simpa [exit] using how) (by omega) (by simpa [called] using before) (.inr ?_)
    rw [writes, remaining]
    refine left.resolve_left ?_
    rintro empty
    simp [empty] at hk

theorem Counted.complete {k : Nat} {e : Ec} (h : Counted s) (hs : complete k e s = some t) : Counted t := by
  obtain ⟨file, content, written, hk, _, rfl⟩ := complete_cases hs
  exact h.set hk rfl ⟨rfl, rfl, rfl, rfl, rfl⟩

variable [DecidableEq φ]

theorem Counted.pass {o : Opening} (h : Counted s) (running : s.state.exit = none)
    (sound : Sound target s (.call (.next o))) (pass : Pass target s o t) : Counted t := by
  obtain ⟨remaining, none, called⟩ := h.progress.loop running
  have bound := h.bound
  cases pass with
  | returns o done =>
    exact ⟨.running (.inr ⟨rfl, done⟩) remaining none called, bound⟩
  | throws hp =>
    rw [hp, List.length_cons] at remaining
    rw [if_neg (by omega)] at called
    refine ⟨.thrown _ rfl none called (.inr ?_), bound⟩
    change writes s < s.state.remainingWrites
    omega
  | @refused path todo stream hp _ =>
    have first : s.state.todo.length = s.state.data.first.length := by simpa [Sound, hp] using sound
    rw [hp, List.length_cons] at first remaining
    rw [if_neg (by omega)] at called
    have idle : writes s = 0 := by omega
    cases stream with
    | true | false => exact ⟨.refused rfl (by simpa using idle) (by simp [none]; exact called), bound⟩
  | outOfRange stream content hp _ _ =>
    rw [show s.state.todo = [] from sound] at hp
    cases hp
  | @starts path content todo contents stream hp some regular =>
    rw [hp, List.length_cons] at remaining
    cases stream with
    | true | false =>
      refine ⟨.running (.inl running) ?_ (by simpa using none) called, bound⟩
      simp only [writes_start, writes_modify]
      change s.state.remainingWrites = writes s + 1 + todo.length
      omega

theorem Counted.transfer {k n : Nat} (h : Counted s) (hs : transfer target k n s = some t) : Counted t := by
  obtain ⟨file, content, written, hk, _, rfl⟩ := transfer_cases hs
  exact h.set hk rfl ⟨rfl, rfl, rfl, rfl, rfl⟩

theorem Counted.step {l : Label Ec Unit Act} (h : Counted s) (sound : Sound target s l)
    (hs : (machine target).step s l = some t) : Counted t := by
  rcases Machine.step_cases hs with ⟨_, _, _, _, _, hc, _⟩ | ⟨k, _, x, e, rest, rfl, hk, hr⟩ | ⟨a, rfl, ha⟩
  · cases hc
  · exact h.run hk hr
  · cases a with
    | next o =>
      obtain ⟨running, pass⟩ := next_pass ha
      exact h.pass running sound pass
    | transfer k n => exact h.transfer ha
    | complete k e => exact h.complete ha

/-- The contents are indexed out of range by one kind of step, and stay so. -/
theorem step_range {l : Label Ec Unit Act} (hs : (machine target).step s l = some t) :
    t.state.outOfRange = s.state.outOfRange ∨ t.state.outOfRange = true ∧ s.state.todo ≠ [] ∧
      ∃ stream content, l = .call (.next (.beyond stream content)) := by
  rcases Machine.step_cases hs with ⟨_, _, _, _, _, hc, _⟩ | ⟨k, _, x, e, rest, rfl, hk, hr⟩ | ⟨a, rfl, ha⟩
  · cases hc
  · have keeps (m : Save φ) : (MNNSaver.countDown m).outOfRange = m.outOfRange := by rw [countDown_eq]
    cases x with
    | write file content written =>
      obtain rfl := Option.some.inj hr
      cases e with
      | success | error => exact .inl (keeps _)
    | handleWrite =>
      obtain rfl := Option.some.inj hr
      exact .inl rfl
  · cases a with
    | next o =>
      cases (next_pass ha).2 with
      | returns o done => exact .inl rfl
      | throws hp => exact .inl rfl
      | refused stream hp _ => exact .inl (by cases stream <;> rfl)
      | outOfRange stream content hp _ _ => exact .inr ⟨rfl, by simp [hp], stream, content, rfl⟩
      | starts stream hp _ _ => exact .inl (by cases stream <;> rfl)
    | transfer k n =>
      obtain ⟨_, _, _, _, _, rfl⟩ := transfer_cases ha
      exact .inl rfl
    | complete k e =>
      obtain ⟨_, _, _, _, _, rfl⟩ := complete_cases ha
      exact .inl rfl

theorem inRange_step {l : Label Ec Unit Act} (h : s.state.outOfRange = false) (sound : Sound target s l)
    (hs : (machine target).step s l = some t) : t.state.outOfRange = false := by
  rcases step_range hs with same | ⟨_, more, stream, content, rfl⟩
  · exact same.trans h
  · exact absurd sound more

end Counts

/-- What a save of files promises about its end. -/
structure Completes (target : Str → φ) (s : Saving φ) : Prop where
  inRange : s.state.exit ≠ some .undefined ∧ s.state.outOfRange = false
  once : s.state.handleWrites ≤ 1
  thrown : ∀ e, s.state.exit = some (.threw e) → s.state.handleWrites = 0
  finished : 0 < s.state.handleWrites → ∀ x ∈ s.pool, x.handler.isWrite = false
  stored : 0 < s.state.handleWrites → ∀ p ∈ s.state.stored, s.state.disk (target p.1) = some p.2
  settled : s.state.exit ≠ none → s.pool = [] →
    (∃ e, s.state.exit = some (.threw e)) ∨ s.state.handleWrites = 1

theorem Counted.finished (h : Counted s) (called : 0 < s.state.handleWrites) : writes s = 0 := by
  cases h.progress with
  | running _ count _ before =>
    split at before
    next last => omega
    next => omega
  | refused _ idle => exact idle
  | thrown _ _ _ before => omega

theorem Counted.settled (h : Counted s) (left : s.state.exit ≠ none) (idle : s.pool = []) :
    (∃ e, s.state.exit = some (.threw e)) ∨ s.state.handleWrites = 1 := by
  have none : writes s = 0 ∧ posted s = 0 := by simp [writes, posted, idle]
  cases h.progress with
  | running how count _ before =>
    rcases how with running | ⟨_, done⟩
    · exact absurd running left
    · rw [done, List.length_nil] at count
      rw [if_pos (by omega)] at before
      exact .inr before
  | refused _ _ called => exact .inr (by omega)
  | thrown e how => exact .inl ⟨e, how⟩

section Claim

variable {filename uuid : Str} {data : Payload} {nullData : Bool}
  {saveLocation : Option Str} {disk : Disk φ Char}

theorem saveASync_inRange (filename : Str) (data : ResultType) (nullData : Bool) (uuid : Str)
    (saveLocation : Option Str) (disk : Disk φ Char) :
    (saveASync filename data nullData uuid saveLocation disk).state.outOfRange = false := by
  unfold saveASync
  split
  · rfl
  · rfl
  · split <;> rfl

theorem counted_saveASync (nonempty : data.first ≠ [] ∨ data.second = [] ∧ nullData = true) :
    Counted (saveASync filename (.success (some data)) nullData uuid saveLocation disk) := by
  unfold saveASync
  by_cases empty : data.second = [] ∧ nullData = true
  · simp only [empty, and_self, if_true]
    exact ⟨.thrown _ rfl rfl rfl (.inl rfl), Nat.zero_le _⟩
  · simp only [if_neg empty]
    have some : data.first.length ≠ 0 := by
      simpa using nonempty.resolve_right empty
    exact ⟨.running (.inl rfl) (by simp [writes]) rfl (by simp [some]), Nat.le_refl _⟩

theorem intact_saveASync
    (distinct : (data.first.map fun path => target (destination filename uuid ++ path)).Nodup) :
    Intact target (saveASync filename (.success (some data)) nullData uuid saveLocation disk).pool
      (saveASync filename (.success (some data)) nullData uuid saveLocation disk).state := by
  unfold saveASync
  by_cases empty : data.second = [] ∧ nullData = true
  · simp only [empty, and_self, if_true]
    exact ⟨by simp [files], by simp, by simp⟩
  · simp only [if_neg empty]
    refine ⟨?_, by simp, by simp⟩
    simpa [files, Function.comp_def] using distinct

/-- A save of files whose steps are sound ends as it should. -/
theorem save_completes [DecidableEq φ]
    (distinct : (data.first.map fun path => target (destination filename uuid ++ path)).Nodup)
    (nonempty : data.first ≠ [] ∨ data.second = [] ∧ nullData = true)
    (reach : Reaches (machine target).step (Sound target)
      (saveASync filename (.success (some data)) nullData uuid saveLocation disk) s) :
    Completes target s := by
  have all : Counted s ∧ Intact target s.pool s.state ∧ s.state.outOfRange = false := by
    refine reach.invariant (P := fun s => Counted s ∧ Intact target s.pool s.state ∧ s.state.outOfRange = false) ?_
      ⟨counted_saveASync nonempty, intact_saveASync distinct, saveASync_inRange ..⟩
    rintro t l u ⟨counted, intact, inRange⟩ sound hs
    exact ⟨counted.step sound hs, intact.step sound hs, inRange_step inRange sound hs⟩
  obtain ⟨counted, intact, inRange⟩ := all
  refine ⟨⟨?_, inRange⟩, ?_, ?_, ?_, ?_, counted.settled⟩
  · cases counted.progress with
    | running how =>
      rcases how with how | ⟨how, _⟩
      · simp [how]
      · simp [how]
    | refused how => simp [how]
    | thrown e how => simp [how]
  · cases counted.progress with
    | running _ _ _ called =>
      rw [called]
      split <;> omega
    | refused _ _ called => omega
    | thrown _ _ _ called => omega
  · intro e threw
    cases counted.progress with
    | running how =>
      rcases how with how | ⟨how, _⟩
      · rw [how] at threw
        cases threw
      · rw [how] at threw
        cases threw
    | refused how =>
      rw [how] at threw
      cases threw
    | thrown _ _ _ called => exact called
  · intro called x hx
    have none := List.countP_eq_zero.mp (counted.finished called) x hx
    simpa using none
  · intro _ p hp
    exact intact.stored p hp

end Claim

/-- A file of two bytes in a directory. -/
def onePage : Payload := ⟨["f".toList], ["ab".toList]⟩

def blank : Disk Str Char := fun _ => none

def start (data : Payload) (disk : Disk Str Char) : Saving Str :=
  saveASync "d/".toList (.success (some data)) false [] none disk

/-- The file has been saved. -/
def pageSaved : Saving Str where
  state := {
    filename := "d/".toList
    data := onePage
    disk := ((blank.put "d/f".toList []).put "d/f".toList []).put "d/f".toList "ab".toList
    created := ["d/f".toList, "d/f".toList]
    stored := [("d/f".toList, "ab".toList)]
    handleWrites := 1
    exit := some .returned }
  pool := []

theorem reaches_pageSaved : Reaches (machine id).step (Sound id) (start onePage blank) pageSaved :=
  reaches_of_guarded (show exec (guarded (machine id).step (Sound id)) (start onePage blank)
    [.call (.next (.tried true true)), .call (.next .throws), .call (.transfer 0 2),
      .call (.complete 0 .success), .run 0 ()] = some pageSaved from rfl)

theorem save_completes_page : Completes id pageSaved :=
  save_completes (by decide) (.inl (by decide)) reaches_pageSaved

/-- A second file that cannot be opened, no file at all, a content too few, and a stream that
does not empty a longer file. -/
theorem save_fails_to_complete :
    (∃ s, Reaches (machine id).step Free (start ⟨["f".toList, "g".toList], ["a".toList, "b".toList]⟩ blank) s ∧
      ¬ Completes id s) ∧
    (∃ s, Reaches (machine id).step Free (start ⟨[], ["a".toList]⟩ blank) s ∧ ¬ Completes id s) ∧
    (∃ s, Reaches (machine id).step Free (start ⟨["f".toList, "g".toList], ["a".toList]⟩ blank) s ∧
      ¬ Completes id s) ∧
    ∃ s, Reaches (machine id).step Free (start onePage fun _ => some "old".toList) s ∧ ¬ Completes id s := by
  refine ⟨?_, ?_, ?_, ?_⟩
  · obtain ⟨t, reach, early⟩ := reaches_of_any (machine id).step
      (start ⟨["f".toList, "g".toList], ["a".toList, "b".toList]⟩ blank)
      [.call (.next (.tried true true)), .call (.next (.tried false false)), .run 1 ()]
      (fun t => 0 < t.state.handleWrites && t.pool.any fun x => x.handler.isWrite) (by decide)
    refine ⟨t, reach, fun completes => ?_⟩
    simp only [Bool.and_eq_true, decide_eq_true_eq, List.any_eq_true] at early
    obtain ⟨called, x, hx, write⟩ := early
    rw [completes.finished called x hx] at write
    cases write
  · obtain ⟨t, reach, never⟩ := reaches_of_any (machine id).step
      (start ⟨[], ["a".toList]⟩ blank) [.call (.next .throws)]
      (fun t => t.state.exit = some .returned && t.pool = [] && t.state.handleWrites = 0) (by decide)
    refine ⟨t, reach, fun completes => ?_⟩
    simp only [Bool.and_eq_true, decide_eq_true_eq] at never
    rcases completes.settled (by simp [never]) never.1.2 with ⟨e, threw⟩ | called
    · simp [never] at threw
    · omega
  · obtain ⟨t, reach, beyond⟩ := reaches_of_any (machine id).step
      (start ⟨["f".toList, "g".toList], ["a".toList]⟩ blank)
      [.call (.next (.tried true true)), .call (.next (.beyond true []))]
      (fun t => t.state.outOfRange) (by decide)
    refine ⟨t, reach, fun completes => ?_⟩
    rw [completes.inRange.2] at beyond
    cases beyond
  · obtain ⟨t, reach, kept⟩ := reaches_of_any (machine id).step
      (start onePage fun _ => some "old".toList)
      [.call (.next (.tried false true)), .call (.transfer 0 2), .call (.complete 0 .success), .run 0 ()]
      (fun t => 0 < t.state.handleWrites && ("d/f".toList, "ab".toList) ∈ t.state.stored &&
        t.state.disk "d/f".toList = some "abd".toList) (by decide)
    refine ⟨t, reach, fun completes => ?_⟩
    simp only [Bool.and_eq_true, decide_eq_true_eq] at kept
    have stored := completes.stored kept.1.1 _ kept.1.2
    rw [id_eq, kept.2] at stored
    cases stored

end MNNSaver

end AsyncIOManager
