import AsyncIOManager.Rank
import AsyncIOManager.MNNCompletion

namespace AsyncIOManager

open Reactor Files

namespace MNNSaver

variable {φ : Type} {target : Str → φ} {s t : Saving φ} {n : Nat}

/-- What there is to save. -/
def toSave : ResultType → Payload
  | .success (some data) => data
  | _ => ⟨[], []⟩

/-- A write that is asked for bytes and writes none. -/
def stalled : Label Ec Unit Act → Bool
  | .call (.transfer _ n) => n = 0
  | _ => false

/-- How many steps an operation can still take. -/
def cost (x : Entry Handler Ec) : Nat :=
  match x with
  | ⟨.write _ content written, none⟩ => content.length - written + 2
  | _ => 1

def rank (s : Saving φ) : Nat :=
  (if s.state.exit = none then 1 else 0) + 3 * s.state.todo.length + (s.state.contents.map List.length).sum +
    s.weight cost

section Ranks

theorem cost_done (x : Handler) (e : Ec) : cost ⟨x, some e⟩ = 1 := by
  cases x <;> rfl

/-- What an operation of the pool does to the rank. -/
theorem rank_set {k : Nat} {x : Entry Handler Ec} {m : Save φ} (hk : s.pool[k]? = some x) (y : Entry Handler Ec)
    (same : m.exit = s.state.exit ∧ m.todo = s.state.todo ∧ m.contents = s.state.contents) :
    rank ⟨m, s.pool.set k y⟩ + cost x = rank s + cost y := by
  have sum := sum_map_set (w := cost) (y := y) hk
  obtain ⟨exit, todo, contents⟩ := same
  simp only [rank, Loop.weight, exit, todo, contents]
  omega

/-- A handler of a save starts nothing, and leaves its loop where it is. -/
theorem run_leaves {x : Handler} {e : Ec} (run : x.run e () s = some t) :
    t.pool = s.pool ∧ t.state.exit = s.state.exit ∧ t.state.todo = s.state.todo ∧
      t.state.contents = s.state.contents := by
  cases x with
  | write file content written =>
    obtain rfl := Option.some.inj run
    have keeps (m : Save φ) : (countDown m).exit = m.exit ∧ (countDown m).todo = m.todo ∧
        (countDown m).contents = m.contents := by
      rw [countDown_eq]
      exact ⟨rfl, rfl, rfl⟩
    cases e with
    | success | error => exact ⟨rfl, keeps _⟩
  | handleWrite =>
    obtain rfl := Option.some.inj run
    exact ⟨rfl, rfl, rfl, rfl⟩

theorem rank_saveASync (filename : Str) (data : ResultType) (nullData : Bool) (uuid : Str)
    (saveLocation : Option Str) (disk : Disk φ Char) :
    rank (saveASync filename data nullData uuid saveLocation disk) ≤
      3 * (toSave data).first.length + ((toSave data).second.map List.length).sum + 1 := by
  cases data with
  | failure e => simp [rank, saveASync, Loop.weight]
  | success data =>
    cases data with
    | none => simp [rank, saveASync, Loop.weight]
    | some data =>
      simp only [saveASync, toSave]
      split
      next => simp [rank, Loop.weight]
      next =>
        simp [rank, Loop.weight]
        omega

variable [DecidableEq φ]

theorem Pass.lowers {o : Opening} (running : s.state.exit = none) (pass : Pass target s o t)
    (inRange : t.state.outOfRange = false) : rank t < rank s := by
  cases pass with
  | returns o done =>
    simp only [rank, Loop.weight_modify, Loop.modify_state, Save.leave, running]
    simp
  | throws hp =>
    simp only [rank, Loop.weight_modify, Loop.modify_state, Save.leave, running, hp, List.length_cons]
    simp
    omega
  | refused stream hp _ =>
    have posted : cost ⟨.handleWrite, some .success⟩ = 1 := rfl
    cases stream with
    | true | false =>
      simp only [rank, Loop.weight_post, Loop.weight_modify, Loop.post_state, Loop.modify_state, Save.leave,
        Save.streamed, Save.truncate, running, hp, List.length_cons, posted]
      simp
      omega
  | outOfRange stream content hp _ _ => cases stream <;> cases inRange
  | @starts path content todo contents stream hp hc _ =>
    have started : cost ⟨.write (s.state.filename ++ path) content 0, none⟩ = content.length + 2 := rfl
    cases stream with
    | true | false =>
      simp only [rank, Loop.weight_start, Loop.weight_modify, Loop.start_state, Loop.modify_state, Save.streamed,
        Save.truncate, Save.openDevice, running, hp, hc, List.length_cons, List.map_cons, List.sum_cons, started]
      simp
      omega

/-- Every step brings a save closer to its end, but for a write that writes nothing. -/
theorem step_pays {l : Label Ec Unit Act} (step : (machine target).step s l = some t)
    (inRange : t.state.outOfRange = false) : rank t < rank s + if stalled l then 1 else 0 := by
  rcases Machine.step_cases step with ⟨_, _, _, _, _, hc, _⟩ | ⟨k, _, x, e, rest, rfl, hk, hr⟩ | ⟨a, rfl, ha⟩
  · cases hc
  · obtain ⟨pool, exit, todo, contents⟩ := run_leaves hr
    have taken := weight_takeAt (w := cost) hk
    rw [cost_done] at taken
    change rank t < rank s + 0
    simp only [rank, Loop.weight, pool, exit, todo, contents]
    omega
  · cases a with
    | next o =>
      obtain ⟨running, pass⟩ := next_pass ha
      exact pass.lowers running inRange
    | transfer k n =>
      obtain ⟨file, content, written, hk, room, rfl⟩ := transfer_cases ha
      have moved := rank_set hk ⟨.write file content (written + n), none⟩
        (m := s.state.pwrite target file written ((content.drop written).take n)) ⟨rfl, rfl, rfl⟩
      simp only [cost] at moved
      by_cases none : n = 0
      · have still : stalled (.call (.transfer k n)) = true := decide_eq_true none
        rw [if_pos still]
        omega
      · omega
    | complete k e =>
      obtain ⟨file, content, written, hk, _, rfl⟩ := complete_cases ha
      have moved := rank_set hk ⟨.write file content written, some e⟩ (m := s.state) ⟨rfl, rfl, rfl⟩
      rw [cost_done] at moved
      simp only [cost] at moved
      change rank _ < rank s + 0
      omega

end Ranks

/-- How far a save of `n` files is, whatever has become of them: its loop goes on or has come to its
end, or a file could not be opened, or the loop was left otherwise. -/
inductive Course (n : Nat) (s : Saving φ) : Prop
  | running : (s.state.exit = none ∨ s.state.exit = some .returned ∧ s.state.todo = []) →
      s.state.remainingWrites = writes s + s.state.todo.length → posted s = 0 →
      (s.state.handleWrites = if s.state.remainingWrites = 0 ∧ 0 < n then 1 else 0) → Course n s
  | refused : s.state.exit = some .returned → writes s < s.state.remainingWrites →
      s.state.handleWrites + posted s = 1 → Course n s
  | broken (e : Exit) : s.state.exit = some e → e ≠ .returned → posted s = 0 → s.state.handleWrites = 0 →
      (s.pool = [] ∨ writes s < s.state.remainingWrites) → Course n s

structure Tally (n : Nat) (s : Saving φ) : Prop where
  course : Course n s
  bound : s.state.remainingWrites ≤ n
  pending : ∀ x ∈ s.pool, x.outcome = none → x.handler.isWrite = true

namespace Tally

/-- A pass of the loop finds its writes counted, and `handle_write` uncalled if there is a file left. -/
theorem loop (h : Tally n s) (running : s.state.exit = none) :
    s.state.remainingWrites = writes s + s.state.todo.length ∧ posted s = 0 ∧
      (s.state.todo ≠ [] → s.state.handleWrites = 0) := by
  cases h.course with
  | running _ remaining none called =>
    refine ⟨remaining, none, fun more => ?_⟩
    have length := List.length_pos_iff.mpr more
    rw [called, if_neg (by omega)]
  | refused exit => rw [exit] at running; cases running
  | broken e exit => rw [exit] at running; cases running

/-- The callback of a write counts it down. -/
theorem countDown {m : Save φ} {rest : List (Entry Handler Ec)} (h : Tally n s)
    (same : m.remainingWrites = s.state.remainingWrites ∧ m.handleWrites = s.state.handleWrites ∧
      m.todo = s.state.todo ∧ m.exit = s.state.exit)
    (taken : writes s = writes ⟨m, rest⟩ + 1 ∧ posted s = posted ⟨m, rest⟩) (old : ∀ x ∈ rest, x ∈ s.pool) :
    Tally n ⟨MNNSaver.countDown m, rest⟩ := by
  obtain ⟨remaining, called, todo, exit⟩ := same
  obtain ⟨_, _, sameTodo, _, _, sameExit⟩ := countDown_keeps m
  rw [exit] at sameExit
  rw [todo] at sameTodo
  have bound := h.bound
  have kept : writes ⟨MNNSaver.countDown m, rest⟩ = writes ⟨m, rest⟩ ∧
      posted ⟨MNNSaver.countDown m, rest⟩ = posted ⟨m, rest⟩ := ⟨rfl, rfl⟩
  -- a write is queued, so the count is positive and does not wrap
  have some : 0 < m.remainingWrites := by
    cases h.course with
    | running _ count => omega
    | refused _ left => omega
    | broken _ _ _ _ _ left =>
      rcases left with empty | left
      · simp [writes, empty] at taken
      · omega
  obtain ⟨less, more⟩ := countDown_counts some
  refine ⟨?_, ?_, fun x hx => h.pending x (old x hx)⟩
  · cases h.course with
    | running how count unposted before =>
      refine .running ?_ ?_ (by omega) ?_
      · change (MNNSaver.countDown m).exit = none ∨
          (MNNSaver.countDown m).exit = Option.some .returned ∧ (MNNSaver.countDown m).todo = []
        rw [sameExit, sameTodo]
        exact how
      · change (MNNSaver.countDown m).remainingWrites = writes ⟨m, rest⟩ + (MNNSaver.countDown m).todo.length
        rw [less, sameTodo]
        omega
      · change (MNNSaver.countDown m).handleWrites = if (MNNSaver.countDown m).remainingWrites = 0 ∧ 0 < n then 1 else 0
        rw [less, more, called, before, if_neg (by omega)]
        by_cases last : m.remainingWrites = 1
        · rw [if_pos last, if_pos (by omega)]
        · rw [if_neg last, if_neg (by omega)]
    | refused how left before =>
      rw [if_neg (by omega)] at more
      refine .refused (sameExit.trans how) ?_ ?_
      · change writes ⟨m, rest⟩ < (MNNSaver.countDown m).remainingWrites
        omega
      · change (MNNSaver.countDown m).handleWrites + posted ⟨m, rest⟩ = 1
        omega
    | broken e how other unposted before left =>
      rcases left with empty | left
      · simp [writes, empty] at taken
      · rw [if_neg (by omega)] at more
        refine .broken e (sameExit.trans how) other (by omega) ?_ (.inr ?_)
        · change (MNNSaver.countDown m).handleWrites = 0
          omega
        · change writes ⟨m, rest⟩ < (MNNSaver.countDown m).remainingWrites
          omega
  · change (MNNSaver.countDown m).remainingWrites ≤ n
    omega

theorem run {k : Nat} {x : Handler} {e : Ec} {rest : List (Entry Handler Ec)} (h : Tally n s)
    (hk : takeAt s.pool k = some (⟨x, some e⟩, rest)) (hr : x.run e () { s with pool := rest } = some t) :
    Tally n t := by
  have counts := Counted.take hk
  have old (y : Entry Handler Ec) (hy : y ∈ rest) : y ∈ s.pool := takeAt_rest_mem hk hy
  cases x with
  | write file content written =>
    obtain rfl := Option.some.inj hr
    cases e with
    | success | error => exact h.countDown ⟨rfl, rfl, rfl, rfl⟩ ⟨counts.1, counts.2⟩ old
  | handleWrite =>
    obtain rfl := Option.some.inj hr
    simp only [Handler.isWrite, Bool.false_eq_true, if_false] at counts
    refine ⟨?_, h.bound, fun y hy => h.pending y (old y hy)⟩
    cases h.course with
    | running _ _ unposted => omega
    | broken _ _ _ unposted => omega
    | refused exit left called =>
      refine .refused exit ?_ ?_
      · change writes { s with pool := rest } < s.state.remainingWrites
        omega
      · change s.state.handleWrites + 1 + posted { s with pool := rest } = 1
        omega

/-- A write that gets further is counted as before. -/
theorem set {k : Nat} {x y : Entry Handler Ec} {m : Save φ} (h : Tally n s) (hk : s.pool[k]? = some x)
    (was : x.handler.isWrite = true) (stays : y.handler.isWrite = true)
    (state : m.remainingWrites = s.state.remainingWrites ∧ m.handleWrites = s.state.handleWrites ∧
      m.todo = s.state.todo ∧ m.exit = s.state.exit) : Tally n ⟨m, s.pool.set k y⟩ := by
  obtain ⟨remaining, called, todo, exit⟩ := state
  obtain ⟨writes, posted⟩ := writes_set (m := m) hk (stays.trans was.symm)
  refine ⟨?_, remaining.le.trans h.bound, fun z hz => ?_⟩
  · cases h.course with
    | running how count unposted before =>
      refine .running (by simpa [exit, todo] using how) ?_ (by omega) (by simpa [remaining, called] using before)
      rw [writes, remaining, todo]
      exact count
    | refused how left before =>
      refine .refused (exit.trans how) ?_ ?_
      · rw [writes, remaining]
        exact left
      · rw [posted, called]
        exact before
    | broken e how other unposted before left =>
      refine .broken e (exit.trans how) other (by omega) (called.trans before) (.inr ?_)
      rw [writes, remaining]
      refine left.resolve_left ?_
      rintro empty
      simp [empty] at hk
  · rcases List.mem_or_eq_of_mem_set hz with old | rfl
    · exact h.pending z old
    · exact fun _ => stays

/-- A pass of the loop that starts a write keeps the count of what is left. -/
theorem starts {path : Str} {todo : List Str} {file : Str} {f : Save φ → Save φ} (h : Tally n s)
    (running : s.state.exit = none) (hp : s.state.todo = path :: todo) (content : Str)
    (same : (f s.state).remainingWrites = s.state.remainingWrites ∧ (f s.state).handleWrites = s.state.handleWrites ∧
      (f s.state).todo = todo ∧ (f s.state).exit = s.state.exit) :
    Tally n ((s.modify f).start (.write file content 0)) := by
  obtain ⟨remaining, none, uncalled⟩ := h.loop running
  have bound := h.bound
  obtain ⟨counter, calls, left, exit⟩ := same
  rw [hp, List.length_cons] at remaining
  have called := uncalled (by simp [hp])
  have pending : ∀ x ∈ s.pool ++ [⟨.write file content 0, Option.none⟩],
      x.outcome = Option.none → x.handler.isWrite = true := by
    intro x hx
    rcases List.mem_append.mp hx with old | new
    · exact h.pending x old
    · rw [List.mem_singleton.mp new]
      exact fun _ => rfl
  refine ⟨.running (.inl (exit.trans running)) ?_ (by simpa using none) ?_, counter.le.trans bound, pending⟩
  · simp only [writes_start, writes_modify]
    change (f s.state).remainingWrites = writes s + 1 + (f s.state).todo.length
    rw [counter, left]
    omega
  · change (f s.state).handleWrites = if (f s.state).remainingWrites = 0 ∧ 0 < n then 1 else 0
    rw [calls, counter, called, if_neg (by omega)]

variable [DecidableEq φ]

theorem pass {o : Opening} (h : Tally n s) (running : s.state.exit = none) (pass : Pass target s o t) :
    Tally n t := by
  obtain ⟨remaining, none, uncalled⟩ := h.loop running
  have bound := h.bound
  cases pass with
  | returns o done =>
    refine ⟨?_, bound, h.pending⟩
    cases h.course with
    | running _ count unposted called => exact .running (.inr ⟨rfl, done⟩) count unposted called
    | refused exit => rw [exit] at running; cases running
    | broken e exit => rw [exit] at running; cases running
  | throws hp =>
    rw [hp, List.length_cons] at remaining
    refine ⟨.broken _ rfl (by simp) none (uncalled (by simp [hp])) (.inr ?_), bound, h.pending⟩
    change writes s < s.state.remainingWrites
    omega
  | @refused path todo stream hp _ =>
    rw [hp, List.length_cons] at remaining
    have called := uncalled (by simp [hp])
    have pending : ∀ x ∈ s.pool ++ [⟨.handleWrite, some .success⟩], x.outcome = Option.none →
        x.handler.isWrite = true := by
      intro x hx
      rcases List.mem_append.mp hx with old | new
      · exact h.pending x old
      · rw [List.mem_singleton.mp new]
        exact fun open_ => (by cases open_)
    have left : writes s < s.state.remainingWrites := by omega
    have kept (f : Save φ → Save φ) : writes ((s.modify f).post .handleWrite .success) = writes s := by simp
    cases stream with
    | true | false => exact ⟨.refused rfl ((kept _).trans_lt left) (by simp [none]; exact called), bound, pending⟩
  | outOfRange stream content hp _ _ =>
    exact h.starts running hp content (by cases stream <;> exact ⟨rfl, rfl, rfl, rfl⟩)
  | starts stream hp _ _ =>
    exact h.starts running hp _ (by cases stream <;> exact ⟨rfl, rfl, rfl, rfl⟩)

theorem step {l : Label Ec Unit Act} (h : Tally n s) (hs : (machine target).step s l = some t) : Tally n t := by
  rcases Machine.step_cases hs with ⟨_, _, _, _, _, hc, _⟩ | ⟨k, _, x, e, rest, rfl, hk, hr⟩ | ⟨a, rfl, ha⟩
  · cases hc
  · exact h.run hk hr
  · cases a with
    | next o =>
      obtain ⟨running, pass⟩ := next_pass ha
      exact h.pass running pass
    | transfer k n =>
      obtain ⟨file, content, written, hk, _, rfl⟩ := transfer_cases ha
      exact h.set hk rfl rfl ⟨rfl, rfl, rfl, rfl⟩
    | complete k e =>
      obtain ⟨file, content, written, hk, _, rfl⟩ := complete_cases ha
      exact h.set hk rfl rfl ⟨rfl, rfl, rfl, rfl⟩

end Tally

theorem tally_saveASync (filename : Str) (data : ResultType) (nullData : Bool) (uuid : Str)
    (saveLocation : Option Str) (disk : Disk φ Char) :
    Tally (toSave data).first.length (saveASync filename data nullData uuid saveLocation disk) := by
  cases data with
  | failure e => exact ⟨.broken _ rfl (by simp) rfl rfl (.inl rfl), Nat.zero_le _, fun x hx => (by cases hx)⟩
  | success data =>
    cases data with
    | none => exact ⟨.broken _ rfl (by simp) rfl rfl (.inl rfl), Nat.zero_le _, fun x hx => (by cases hx)⟩
    | some data =>
      simp only [saveASync, toSave]
      split
      next => exact ⟨.broken _ rfl (by simp) rfl rfl (.inl rfl), Nat.zero_le _, fun x hx => (by cases hx)⟩
      next =>
        refine ⟨.running (.inl rfl) (by simp [writes]) rfl ?_, Nat.le_refl _, fun x hx => (by cases hx)⟩
        change 0 = if data.first.length = 0 ∧ 0 < data.first.length then 1 else 0
        rw [if_neg (by omega)]

/-- A save at rest has called `handle_write` once if it has returned and had a file to save. -/
theorem Tally.rests (h : Tally n s) (left : s.state.exit ≠ none) (idle : s.pool = []) :
    s.state.handleWrites = if s.state.exit = some .returned ∧ 0 < n then 1 else 0 := by
  have unwritten : writes s = 0 := by simp [writes, idle]
  have unposted : posted s = 0 := by simp [posted, idle]
  have bound := h.bound
  cases h.course with
  | running how count _ called =>
    obtain ⟨exit, done⟩ := how.resolve_left left
    rw [done, unwritten] at count
    rw [called, exit]
    simp [count]
  | refused exit waits called =>
    rw [if_pos ⟨exit, by omega⟩]
    omega
  | broken e exit other _ called =>
    rw [called, exit, if_neg]
    rintro ⟨same, _⟩
    exact other (Option.some.inj same)

section Ends

variable [DecidableEq φ]

/-- What is queued can go on, outside the loop. -/
theorem Tally.goes_on (target : Str → φ) (h : Tally n s) (pending : s.pool ≠ []) :
    ∃ l t, (machine target).step s l = some t ∧ stalled l = false ∧ ∀ o, l ≠ .call (.next o) := by
  obtain ⟨⟨x, outcome⟩, hx⟩ := List.exists_mem_of_ne_nil _ pending
  cases outcome with
  | some e =>
    obtain ⟨k, rest, hk⟩ := takeAt_of_mem hx
    cases x with
    | write | handleWrite =>
      exact ⟨.run k (), _, by simp only [Machine.step, hk]; rfl, rfl, fun o same => (by cases same)⟩
  | none =>
    obtain ⟨k, hk⟩ := List.mem_iff_getElem?.mp hx
    cases x with
    | write file content written =>
      refine ⟨.call (.complete k .error), { s with pool := s.pool.set k ⟨.write file content written, some .error⟩ },
        ?_, rfl, fun o same => (by cases same)⟩
      simp [Machine.step, machine, Act.perform, complete, hk]
    | handleWrite => cases h.pending _ hx rfl

theorem stuck_of_rest (left : s.state.exit ≠ none) (idle : s.pool = []) (l : Label Ec Unit Act) :
    (machine target).step s l = none := by
  cases l with
  | finish k e => simp [Machine.step, idle]
  | run k o => simp [Machine.step, takeAt, idle]
  | call a =>
    cases a with
    | next o => simp [Machine.step, machine, Act.perform, next, left]
    | transfer k n => simp [Machine.step, machine, Act.perform, transfer, idle]
    | complete k e => simp [Machine.step, machine, Act.perform, complete, idle]

/-- A save whose loop has not been left, or that has something queued, can go on. -/
theorem Tally.stuck_iff (h : Tally n s) :
    (∀ l, (machine target).step s l = none) ↔ s.state.exit ≠ none ∧ s.pool = [] := by
  constructor
  · intro stuck
    have left : s.state.exit ≠ none := by
      intro running
      have no := stuck (.call (.next .throws))
      simp only [Machine.step, machine, Act.perform, next, running] at no
      split at no
      next no' => exact no' rfl
      next =>
        split at no
        next => cases no
        next => cases no
    refine ⟨left, ?_⟩
    by_contra pending
    obtain ⟨l, t, step, _⟩ := h.goes_on target pending
    rw [stuck l] at step
    cases step
  · rintro ⟨left, idle⟩ l
    exact stuck_of_rest left idle l

/-- A save to local files that follows no null pointer and does not read past the contents takes
at most three steps a file, one a byte, one more, and those in which a write writes nothing. It goes
on until its loop has been left and nothing is queued, and has then called `handle_write` once,
whichever files could be opened and whatever became of the writes, but never if it has thrown or
there was no file to save. -/
theorem mnn_save_ends (filename : Str) (data : ResultType) (nullData : Bool) (uuid : Str)
    (saveLocation : Option Str) (disk : Disk φ Char) {ls : List (Label Ec Unit Act)}
    (run : exec (machine target).step (saveASync filename data nullData uuid saveLocation disk) ls = some s)
    (defined : s.state.exit ≠ some .undefined) (inRange : s.state.outOfRange = false) :
    ls.length ≤ 3 * (toSave data).first.length + ((toSave data).second.map List.length).sum + 1 +
      (ls.map fun l => if stalled l then 1 else 0).sum ∧
    ((∀ l, (machine target).step s l = none) ↔ s.state.exit ≠ none ∧ s.pool = []) ∧
    (s.state.exit ≠ none → s.pool = [] →
      s.state.handleWrites ≤ 1 ∧
        (s.state.handleWrites = 0 ↔ (∃ e, s.state.exit = some (.threw e)) ∨ (toSave data).first = [])) := by
  have tally : Tally (toSave data).first.length s :=
    (reaches_of_exec run).invariant (fun _ _ _ h _ step => h.step step) (tally_saveASync ..)
  refine ⟨?_, tally.stuck_iff, fun left idle => ?_⟩
  · have back (s : Saving φ) (l : Label Ec Unit Act) (t : Saving φ) (step : (machine target).step s l = some t)
        (last : (!t.state.outOfRange) = true) : (!s.state.outOfRange) = true := by
      rcases step_range step with same | ⟨beyond, _⟩
      · rw [← same]
        exact last
      · rw [beyond] at last
        cases last
    have kept := exec_filter back run (by simp [inRange])
    have bound := exec_length_le_gain (fun _ => True) rank (fun _ => 0) (fun l => if stalled l then 1 else 0)
      (fun _ _ _ _ _ => trivial) (fun s l t _ step => by
        obtain ⟨step, last⟩ := Option.filter_eq_some_iff.mp step
        exact step_pays step (by simpa using last)) trivial kept
    have start := rank_saveASync filename data nullData uuid saveLocation disk
    omega
  · rw [tally.rests left idle]
    simp only [List.length_pos_iff]
    cases exit : s.state.exit with
    | none => exact absurd exit left
    | some e =>
      cases e with
      | returned => by_cases named : (toSave data).first = [] <;> simp [named]
      | threw e => simp
      | undefined => exact absurd exit defined

def twoNamed : ResultType := .success (some ⟨["a".toList, "b".toList], ["x".toList, []]⟩)

/-- The second of two files cannot be opened, and the save is told to have ended before the first
one is written. -/
def secondRefused : List (Label Ec Unit Act) :=
  [.call (.next (.tried true true)), .call (.next (.tried false false)), .run 1 (), .call (.transfer 0 1),
    .call (.complete 0 .success), .run 0 ()]

theorem mnn_save_ends_refused : ∃ s : Saving Str, s.pool = [] ∧ s.state.handleWrites = 1 ∧
    secondRefused.length ≤ 3 * (toSave twoNamed).first.length + ((toSave twoNamed).second.map List.length).sum + 1 +
      (secondRefused.map fun l => if stalled l then 1 else 0).sum ∧
    ((∀ l, (machine id).step s l = none) ↔ s.state.exit ≠ none ∧ s.pool = []) ∧
    (s.state.exit ≠ none → s.pool = [] →
      s.state.handleWrites ≤ 1 ∧
        (s.state.handleWrites = 0 ↔ (∃ e, s.state.exit = some (.threw e)) ∨ (toSave twoNamed).first = [])) := by
  have run : exec (machine id).step (saveASync "d/".toList twoNamed false [] none fun _ : Str => none) secondRefused =
      some _ := rfl
  exact ⟨_, rfl, rfl, mnn_save_ends "d/".toList twoNamed false [] none (fun _ => none) run (by decide) rfl⟩

end Ends

end MNNSaver

end AsyncIOManager
