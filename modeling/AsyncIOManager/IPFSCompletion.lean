import AsyncIOManager.IPFSSaver

namespace AsyncIOManager

open Reactor Files Paths

namespace IPFSSaver

/-- The stages that only the `catch` and the callback come behind. -/
def Stage.trying : Stage → Bool
  | tempDirectoryPath => false
  | removeAll => false
  | publishing => false
  | catching => false
  | finished => false
  | _ => true

namespace Save

/-- A step of a save. -/
inductive Steps (s : Save) (t : Tree) : Act → Save → Tree → Prop
  | named (dir : Str) (now : Nat) : s.stage = .tempDirectoryPath →
      Steps s t (.tempDirectoryPath dir now) (s.named dir now) t
  | unnamed : s.stage = .tempDirectoryPath → Steps s t .throws (s.leave .threw) t
  | refused : s.stage = .tempFile → Steps s t .fails (s.post.leave .returned) t
  | openedTemp : s.stage = .tempFile → MNNSaver.namesFile s.tempFilePath = true →
      Steps s t .succeeds ((s.opened s.tempFilePath).goto .tempWrite) (t.put (place s.tempFilePath) [])
  | wroteTemp (n : Nat) : s.stage = .tempWrite → n ≤ s.content.length →
      Steps s t (.writes n) ((s.wrote s.tempFilePath (s.content.take n)).goto .publishFile)
        (t.put (place s.tempFilePath) (s.content.take n))
  | looked : s.stage = .existing →
      Steps s t .succeeds (s.goto (if t.present then .removeAll else .createDirectories)) t
  | removed : s.stage = .removeAll → Steps s t (.removes .done) (s.goto .createDirectories) (s.area.remove t)
  | unremoved (removed : List (Place Str)) : s.stage = .removeAll →
      Steps s t (.removes (.throws removed)) (s.goto .catching) (s.area.removeSome removed t)
  | created : s.stage = .createDirectories →
      Steps s t .succeeds (s.goto (.loop s.files)) t.createDirectories
  | parent {file content : Str} {rest : List (Str × Str)} : s.stage = .parentPath file content rest →
      Steps s t .succeeds (s.goto (.ofs file content rest))
        (if file.head? = some '/' then t else t.createDirectories)
  | opened {file content : Str} {rest : List (Str × Str)} : s.stage = .ofs file content rest →
      MNNSaver.namesFile file = true →
      Steps s t .succeeds ((s.opened file).goto (.write file content rest)) (t.put (place file) [])
  | skipped {file content : Str} {rest : List (Str × Str)} : s.stage = .ofs file content rest →
      Steps s t .fails (s.goto (.loop rest)) t
  | wrote {file content : Str} {rest : List (Str × Str)} (n : Nat) : s.stage = .write file content rest →
      n ≤ content.length →
      Steps s t (.writes n) ((s.wrote file (content.take n)).goto (.loop rest))
        (t.put (place file) (content.take n))
  | publishes : s.stage = .publishFile ∨ s.stage = .publishDirectory →
      Steps s t .succeeds (s.goto .publishing) t
  | thrown : s.stage.trying = true ∨ s.stage = .publishing ∧ s.exit = none →
      Steps s t .throws (s.goto .catching) t
  | recovered : s.stage = .catching →
      Steps s t (.removes .done) (s.post.leave .returned) (s.area.remove t)
  | unrecovered (removed : List (Place Str)) : s.stage = .catching →
      Steps s t (.removes (.throws removed)) (s.leave .threw) (s.area.removeSome removed t)
  | reads : s.stage = .publishing →
      Steps s t .reads { s with root := some (t.disk.within s.area.has) } t
  | returns : (s.stage = .publishing ∨ s.stage = .finished) → s.exit = none →
      Steps s t .returns { s with exit := some .returned } t
  | calledBack (result : Published) : s.stage = .publishing → (result = .failure ∨ s.root.isSome) →
      Steps s t (.callsBack result .done) ((s.report result).post.goto .finished) (s.area.remove t)
  | uncleaned (result : Published) (removed : List (Place Str)) : s.stage = .publishing →
      (result = .failure ∨ s.root.isSome) →
      Steps s t (.callsBack result (.throws removed))
        (s.goto (if s.exit = none then .catching else .finished)) (s.area.removeSome removed t)

theorem succeed_steps {s : Save} {t : Tree} {next : Save × Tree} (h : s.succeed t = some next) :
    Steps s t .succeeds next.1 next.2 := by
  unfold succeed at h
  split at h
  next hs =>
    split at h
    next named =>
      obtain rfl := Option.some.inj h
      exact .openedTemp hs named
    next => cases h
  next hs =>
    obtain rfl := Option.some.inj h
    exact .looked hs
  next hs =>
    obtain rfl := Option.some.inj h
    exact .created hs
  next hs =>
    obtain rfl := Option.some.inj h
    exact .parent hs
  next hs =>
    split at h
    next named =>
      obtain rfl := Option.some.inj h
      exact .opened hs named
    next => cases h
  next hs =>
    obtain rfl := Option.some.inj h
    exact .publishes (.inl hs)
  next hs =>
    obtain rfl := Option.some.inj h
    exact .publishes (.inr hs)
  next => cases h

theorem fail_steps {s : Save} {t : Tree} {next : Save × Tree} (h : s.fail t = some next) :
    Steps s t .fails next.1 next.2 := by
  unfold fail at h
  split at h
  next hs =>
    obtain rfl := Option.some.inj h
    exact .refused hs
  next hs =>
    obtain rfl := Option.some.inj h
    exact .skipped hs
  next => cases h

theorem throw_steps {s : Save} {t : Tree} {next : Save × Tree} (h : s.throw t = some next) :
    Steps s t .throws next.1 next.2 := by
  cases hs : s.stage with
  | tempDirectoryPath =>
    simp only [throw, hs] at h
    obtain rfl := Option.some.inj h
    exact .unnamed hs
  | publishing =>
    simp only [throw, hs] at h
    split at h
    next inside =>
      obtain rfl := Option.some.inj h
      exact .thrown (.inr ⟨hs, inside⟩)
    next => cases h
  | removeAll | catching | finished =>
    simp only [throw, hs] at h
    cases h
  | _ =>
    simp only [throw, hs] at h
    obtain rfl := Option.some.inj h
    exact .thrown (.inl (by rw [hs]; rfl))

theorem write_steps {s : Save} {t : Tree} {n : Nat} {next : Save × Tree} (h : s.write n t = some next) :
    Steps s t (.writes n) next.1 next.2 := by
  unfold write at h
  split at h
  next hs =>
    split at h
    next within =>
      obtain rfl := Option.some.inj h
      exact .wroteTemp n hs within
    next => cases h
  next hs =>
    split at h
    next within =>
      obtain rfl := Option.some.inj h
      exact .wrote n hs within
    next => cases h
  next => cases h

theorem remove_steps {s : Save} {t : Tree} {r : Removal} {next : Save × Tree}
    (h : s.remove r t = some next) : Steps s t (.removes r) next.1 next.2 := by
  unfold remove at h
  split at h
  next hs =>
    obtain rfl := Option.some.inj h
    exact .removed hs
  next hs =>
    obtain rfl := Option.some.inj h
    exact .unremoved _ hs
  next hs =>
    obtain rfl := Option.some.inj h
    exact .recovered hs
  next hs =>
    obtain rfl := Option.some.inj h
    exact .unrecovered _ hs
  next => cases h

theorem step_steps {s : Save} {t : Tree} {a : Act} {next : Save × Tree} (h : s.step a t = some next) :
    Steps s t a next.1 next.2 := by
  cases a with
  | tempDirectoryPath dir now =>
    simp only [step] at h
    split at h
    next hs =>
      obtain rfl := Option.some.inj h
      exact .named dir now hs.1
    next => cases h
  | succeeds => exact succeed_steps h
  | fails => exact fail_steps h
  | throws => exact throw_steps h
  | writes n => exact write_steps h
  | removes r => exact remove_steps h
  | reads =>
    simp only [step] at h
    split at h
    next hs =>
      obtain rfl := Option.some.inj h
      exact .reads hs
    next => cases h
  | returns =>
    simp only [step] at h
    split at h
    next hs =>
      obtain rfl := Option.some.inj h
      exact .returns hs.1 hs.2
    next => cases h
  | callsBack result r =>
    simp only [step] at h
    split at h
    next hs =>
      obtain rfl := Option.some.inj h
      cases r with
      | done => exact .calledBack result hs.1 hs.2
      | throws removed => exact .uncleaned result removed hs.1 hs.2
    next => cases h

end Save

/-- What happens to the saves in one step of the process. -/
theorem Process.step_cases {p q : Process} {e : Event} (h : p.step e = some q) :
    (∃ data bitswap saveLocation, e = .saveASync data bitswap saveLocation ∧
      q = { p with saves := p.saves ++ [IPFSSaver.saveASync data bitswap saveLocation] }) ∨
    ∃ i a s s' t', e = .step i a ∧ p.saves[i]? = some s ∧ s.Steps p.tree a s' t' ∧
      q = { saves := p.saves.set i s', tree := t' } := by
  cases e with
  | saveASync data bitswap saveLocation => exact .inl ⟨_, _, _, rfl, (Option.some.inj h).symm⟩
  | step i a =>
    simp only [Process.step] at h
    split at h
    next => cases h
    next s hs =>
      obtain ⟨next, step, rfl⟩ := Option.map_eq_some_iff.mp h
      exact .inr ⟨i, a, s, next.1, next.2, rfl, hs, Save.step_steps step, rfl⟩

/-- What each save keeps by its own steps holds of all saves. -/
theorem Process.keep {C : Process → Event → Prop} {P : Save → Prop} {p q : Process}
    (fresh : ∀ data bitswap saveLocation, P (IPFSSaver.saveASync data bitswap saveLocation))
    (keep : ∀ p i a s s' t', C p (.step i a) → p.saves[i]? = some s → s.Steps p.tree a s' t' → P s → P s')
    (reach : Reaches Process.step C p q) (hp : ∀ s ∈ p.saves, P s) : ∀ s ∈ q.saves, P s := by
  refine reach.invariant (P := fun p => ∀ s ∈ p.saves, P s) ?_ hp
  intro p e q all hc step
  rcases step_cases step with ⟨data, bitswap, saveLocation, rfl, rfl⟩ | ⟨i, a, s, s', t', rfl, hi, steps, rfl⟩
  · intro s hs
    rcases List.mem_append.mp hs with hs | hs
    · exact all s hs
    · obtain rfl := List.mem_singleton.mp hs
      exact fresh data bitswap saveLocation
  · intro v hv
    rcases List.mem_or_eq_of_mem_set hv with hv | rfl
    · exact all v hv
    · exact keep p i a s v t' hc hi steps (all s (List.mem_of_getElem? hi))

/-- How far a save is with its completion. -/
inductive Posted (s : Save) : Prop
  | running : s.exit = none → s.stage ≠ .finished → s.posts = 0 → Posted s
  | returning : s.exit = none → s.stage = .finished → s.posts = 1 → Posted s
  | waiting : s.exit = some .returned → s.stage = .publishing → s.posts = 0 → Posted s
  | complete : s.exit = some .returned → s.stage = .finished → s.posts = 1 → Posted s
  | thrown : s.exit = some .threw → s.stage = .finished → s.posts = 0 → Posted s

/-- A callback that runs after `SaveASync` has returned cleans up without an exception. -/
def CleansUp (p : Process) : Event → Prop
  | .step i (.callsBack _ (.throws _)) => ∀ s ∈ p.saves[i]?, s.exit = none
  | _ => True

instance (p : Process) (e : Event) : Decidable (CleansUp p e) :=
  match e with
  | .step _ (.callsBack _ (.throws _)) => inferInstanceAs (Decidable (∀ s ∈ _, _))
  | .step _ (.callsBack _ .done) => .isTrue trivial
  | .step _ (.tempDirectoryPath _ _) => .isTrue trivial
  | .step _ .succeeds => .isTrue trivial
  | .step _ .fails => .isTrue trivial
  | .step _ .throws => .isTrue trivial
  | .step _ (.writes _) => .isTrue trivial
  | .step _ (.removes _) => .isTrue trivial
  | .step _ .reads => .isTrue trivial
  | .step _ .returns => .isTrue trivial
  | .saveASync _ _ _ => .isTrue trivial

/-- `SaveASync` is left and no callback is to come. -/
def Save.Over (s : Save) : Prop := s.exit ≠ none ∧ s.stage ≠ .publishing

instance (s : Save) : Decidable s.Over := inferInstanceAs (Decidable (_ ∧ _))

/-- A save throws and does not complete, or it completes once. -/
structure CompletesOnce (s : Save) : Prop where
  atMost : s.posts ≤ 1
  thrown : s.exit = some .threw → s.posts = 0
  complete : s.Over → s.exit = some .threw ∨ s.posts = 1

theorem Posted.once {s : Save} (h : Posted s) : CompletesOnce s := by
  rcases h with ⟨exit, _, posts⟩ | ⟨exit, _, posts⟩ | ⟨exit, stage, posts⟩ | ⟨exit, _, posts⟩ | ⟨exit, _, posts⟩
  · exact ⟨by omega, fun _ => posts, fun ended => absurd exit ended.1⟩
  · refine ⟨by omega, fun threw => ?_, fun ended => absurd exit ended.1⟩
    rw [exit] at threw
    cases threw
  · exact ⟨by omega, fun _ => posts, fun ended => absurd stage ended.2⟩
  · refine ⟨by omega, fun threw => ?_, fun _ => .inr posts⟩
    rw [exit] at threw
    cases threw
  · exact ⟨by omega, fun _ => posts, fun _ => .inl exit⟩

theorem posted_saveASync (data : ResultType) (bitswap : Bool) (saveLocation : Option Str) :
    Posted (saveASync data bitswap saveLocation) := by
  have done : Posted (refused saveLocation) := .complete rfl rfl rfl
  unfold saveASync
  split
  next => exact done
  next => exact done
  next data =>
    split
    next => exact done
    next =>
      split
      next => exact done
      next =>
        split
        next => exact done
        next =>
          refine .running rfl ?_ rfl
          split <;> simp

/-- The stages in which a save is inside `SaveASync` for sure. -/
def Stage.inside : Stage → Bool
  | publishing => false
  | finished => false
  | _ => true

theorem inside_loop (rest : List (Str × Str)) : (Stage.loop rest).inside = true := by
  cases rest with
  | nil => rfl
  | cons file rest => rfl

theorem inside_of_trying {stage : Stage} (h : stage.trying = true) : stage.inside = true := by
  cases stage <;> first | rfl | cases h

theorem Posted.inside {s : Save} (h : Posted s) {stage : Stage} (hs : s.stage = stage)
    (inside : stage.inside = true) : s.exit = none ∧ s.posts = 0 := by
  subst hs
  rcases h with ⟨exit, _, posts⟩ | ⟨_, stage, _⟩ | ⟨_, stage, _⟩ | ⟨_, stage, _⟩ | ⟨_, stage, _⟩
  · exact ⟨exit, posts⟩
  all_goals
    rw [stage] at inside
    cases inside

theorem Posted.publishing {s : Save} (h : Posted s) (publishing : s.stage = .publishing) :
    s.posts = 0 ∧ (s.exit = none ∨ s.exit = some .returned) := by
  rcases h with ⟨exit, _, posts⟩ | ⟨_, stage, _⟩ | ⟨exit, _, posts⟩ | ⟨_, stage, _⟩ | ⟨_, stage, _⟩
  · exact ⟨posts, .inl exit⟩
  · simp [publishing] at stage
  · exact ⟨posts, .inr exit⟩
  · simp [publishing] at stage
  · simp [publishing] at stage

/-- A step from one stage inside `SaveASync` to another. -/
theorem Posted.goes {s v : Save} (h : Posted s) {stage : Stage} (hs : s.stage = stage)
    (inside : stage.inside = true) (next : v.stage.inside = true ∨ v.stage = .publishing)
    (exit : v.exit = s.exit) (posts : v.posts = s.posts) : Posted v := by
  obtain ⟨here, none⟩ := h.inside hs inside
  refine .running (exit.trans here) ?_ (posts.trans none)
  intro finished
  rw [finished] at next
  rcases next with next | next <;> cases next

theorem Save.report_exit (s : Save) (result : Published) : (s.report result).exit = s.exit := by
  unfold Save.report
  split <;> rfl

theorem Save.report_posts (s : Save) (result : Published) : (s.report result).posts = s.posts := by
  unfold Save.report
  split <;> rfl

theorem Posted.step {s s' : Save} {t t' : Tree} {a : Act} (h : Posted s) (steps : s.Steps t a s' t')
    (cleans : ∀ result removed, a = .callsBack result (.throws removed) → s.exit = none) : Posted s' := by
  cases steps with
  | named dir now hs => exact h.goes hs rfl (.inl rfl) rfl rfl
  | unnamed hs => exact .thrown rfl rfl (h.inside hs rfl).2
  | refused hs =>
    have none := (h.inside hs rfl).2
    exact .complete rfl rfl (by simp [Save.post, Save.leave, none])
  | openedTemp hs _ => exact h.goes hs rfl (.inl rfl) rfl rfl
  | wroteTemp n hs _ => exact h.goes hs rfl (.inl rfl) rfl rfl
  | looked hs =>
    refine h.goes hs rfl (.inl ?_) rfl rfl
    change (if t.present then Stage.removeAll else Stage.createDirectories).inside = true
    split <;> rfl
  | removed hs => exact h.goes hs rfl (.inl rfl) rfl rfl
  | unremoved removed hs => exact h.goes hs rfl (.inl rfl) rfl rfl
  | created hs => exact h.goes hs rfl (.inl (inside_loop _)) rfl rfl
  | parent hs => exact h.goes hs rfl (.inl rfl) rfl rfl
  | opened hs _ => exact h.goes hs rfl (.inl rfl) rfl rfl
  | skipped hs => exact h.goes hs rfl (.inl (inside_loop _)) rfl rfl
  | wrote n hs _ => exact h.goes hs rfl (.inl (inside_loop _)) rfl rfl
  | publishes hs =>
    rcases hs with hs | hs
    · exact h.goes hs rfl (.inr rfl) rfl rfl
    · exact h.goes hs rfl (.inr rfl) rfl rfl
  | thrown hs =>
    rcases hs with hs | ⟨hs, inside⟩
    · exact h.goes rfl (inside_of_trying hs) (.inl rfl) rfl rfl
    · exact .running inside Stage.noConfusion (h.publishing hs).1
  | recovered hs =>
    have none := (h.inside hs rfl).2
    exact .complete rfl rfl (by simp [Save.post, Save.leave, none])
  | unrecovered removed hs => exact .thrown rfl rfl (h.inside hs rfl).2
  | reads hs =>
    obtain ⟨posts, exit | exit⟩ := h.publishing hs
    · exact .running exit (by simp [hs]) posts
    · exact .waiting exit hs posts
  | returns hs inside =>
    rcases hs with hs | hs
    · exact .waiting rfl hs (h.publishing hs).1
    · rcases h with ⟨_, stage, _⟩ | ⟨_, _, posts⟩ | ⟨exit, _, _⟩ | ⟨exit, _, _⟩ | ⟨exit, _, _⟩
      · exact absurd hs stage
      · exact .complete rfl hs posts
      all_goals
        rw [exit] at inside
        cases inside
  | calledBack result hs _ =>
    obtain ⟨posts, exit⟩ := h.publishing hs
    have once : ((s.report result).post.goto .finished).posts = 1 := by
      simp [Save.goto, Save.post, Save.report_posts, posts]
    have same : ((s.report result).post.goto .finished).exit = s.exit := Save.report_exit s result
    rcases exit with exit | exit
    · exact .returning (same.trans exit) rfl once
    · exact .complete (same.trans exit) rfl once
  | uncleaned result removed hs _ =>
    -- inside `Publish*` the `catch` goes on
    have inside := cleans result removed rfl
    rw [if_pos inside]
    exact .running inside Stage.noConfusion (h.publishing hs).1

/-- How many steps a save still needs when everything it calls throws. -/
def Save.rank (s : Save) : Nat :=
  match s.stage with
  | .finished => if s.exit = none then 1 else 0
  | .publishing => 2
  | .catching => 2
  | _ => 3

/-- Acts that are not a clean-up failing in the callback. -/
def Act.quiet : Act → Bool
  | callsBack _ (.throws _) => false
  | _ => true

theorem throw_trying {s : Save} (trying : s.stage.trying = true) (t : Tree) :
    s.step .throws t = some (s.goto .catching, t) ∧ s.rank = 3 := by
  cases hs : s.stage with
  | tempDirectoryPath | removeAll | publishing | catching | finished =>
    rw [hs] at trying
    cases trying
  | _ => simp only [Save.step, Save.throw, Save.rank, hs, and_self]

theorem step_ends {s : Save} (running : ¬ s.Over) (t : Tree) :
    ∃ a next, s.step a t = some next ∧ a.quiet = true ∧ next.1.rank < s.rank := by
  by_cases trying : s.stage.trying = true
  · obtain ⟨step, rank⟩ := throw_trying trying t
    exact ⟨.throws, _, step, rfl, by simp [Save.rank, Save.goto] at rank ⊢; omega⟩
  · cases hs : s.stage with
    | tempDirectoryPath =>
      refine ⟨.throws, (s.leave .threw, t), ?_, rfl, ?_⟩
      · simp only [Save.step, Save.throw, hs]
      · simp [Save.rank, Save.leave, hs]
    | removeAll =>
      refine ⟨.removes (.throws []), (s.goto .catching, s.area.removeSome [] t), ?_, rfl, ?_⟩
      · simp only [Save.step, Save.remove, hs]
      · simp [Save.rank, Save.goto, hs]
    | catching =>
      refine ⟨.removes .done, (s.post.leave .returned, s.area.remove t), ?_, rfl, ?_⟩
      · simp only [Save.step, Save.remove, hs]
      · simp [Save.rank, Save.leave, hs]
    | publishing =>
      refine ⟨.callsBack .failure .done, s.callback .failure .done t, ?_, rfl, ?_⟩
      · simp [Save.step, hs]
      · have next : (s.callback .failure .done t).1.rank ≤ 1 := by
          by_cases exit : s.exit = none
          · simp [Save.rank, Save.callback, Save.goto, Save.post, Save.report, exit]
          · simp [Save.rank, Save.callback, Save.goto, Save.post, Save.report, exit]
        have here : s.rank = 2 := by simp only [Save.rank, hs]
        omega
    | finished =>
      have inside : s.exit = none := by
        by_contra left
        exact running ⟨left, by simp [hs]⟩
      refine ⟨.returns, ({ s with exit := some .returned }, t), ?_, rfl, ?_⟩
      · simp [Save.step, hs, inside]
      · simp [Save.rank, hs, inside]
    | _ =>
      rw [hs] at trying
      exact absurd rfl trying

/-- Whatever the calls of a save do, it can be brought to its end. -/
theorem save_ends {p : Process} {i : Nat} {s : Save} (hs : p.saves[i]? = some s) :
    ∃ q v, Reaches Process.step CleansUp p q ∧ q.saves[i]? = some v ∧ v.Over := by
  let rank (q : Process) : Nat := ((q.saves[i]?).map Save.rank).getD 0
  let idle (q : Process) : Prop := ∃ v, q.saves[i]? = some v ∧ v.Over
  have keep (q : Process) (e : Event) (r : Process) (known : i < q.saves.length) (_ : CleansUp q e)
      (step : q.step e = some r) : i < r.saves.length := by
    rcases Process.step_cases step with ⟨_, _, _, _, rfl⟩ | ⟨j, a, u, u', t', _, _, _, rfl⟩
    · rw [List.length_append]
      omega
    · rw [List.length_set]
      exact known
  have progress (q : Process) (known : i < q.saves.length) (running : ¬ idle q) :
      ∃ e r, CleansUp q e ∧ q.step e = some r ∧ rank r < rank q := by
    have hv := List.getElem?_eq_getElem known
    have going : ¬ q.saves[i].Over := fun done => running ⟨_, hv, done⟩
    obtain ⟨a, next, step, quiet, lower⟩ := step_ends going q.tree
    refine ⟨.step i a, { saves := q.saves.set i next.1, tree := next.2 }, ?_, ?_, ?_⟩
    · cases a with
      | callsBack result r =>
        cases r with
        | done => trivial
        | throws removed => cases quiet
      | _ => trivial
    · simp only [Process.step, hv, step, Option.map_some]
    · simp only [rank, List.getElem?_set_self known, hv, Option.map_some, Option.getD_some]
      exact lower
  obtain ⟨q, reach, v, hv, done⟩ :=
    Reaches.ends rank keep progress (List.getElem?_eq_some_iff.mp hs).1
  exact ⟨q, v, reach, hv, done⟩

/-- As long as no clean-up throws in a callback behind the call, every save of a process
throws without a completion or completes exactly once. -/
theorem save_completes_once {tree : Tree} {p : Process} (reach : Reaches Process.step CleansUp ⟨[], tree⟩ p)
    {i : Nat} {s : Save} (hs : p.saves[i]? = some s) :
    CompletesOnce s ∧ ∃ q v, Reaches Process.step CleansUp p q ∧ q.saves[i]? = some v ∧ v.Over := by
  have all : ∀ s ∈ p.saves, Posted s := by
    refine Process.keep posted_saveASync ?_ reach (by simp)
    intro q j a v v' t' cleans hv steps posted
    refine posted.step steps ?_
    rintro result removed rfl
    exact cleans v hv
  exact ⟨(all s (List.mem_of_getElem? hs)).once, save_ends hs⟩

def emptyTree : Tree where
  disk _ := none
  present := false
  blank _ _ _ := rfl

def onePage : ResultType := .success (some ⟨["p".toList], ["ab".toList]⟩)

/-- The steps of a save of one file until its file is published. -/
def publishing : List Event :=
  [.saveASync onePage true (some []), .step 0 (.tempDirectoryPath "/tmp".toList 7), .step 0 .succeeds,
    .step 0 (.writes 2), .step 0 .succeeds, .step 0 .reads]

theorem save_completes_once_caught :
    ∃ (p : Process) (s : Save), p.saves[0]? = some s ∧ s.exit = some .returned ∧ CompletesOnce s := by
  obtain ⟨p, reach, ended⟩ := reaches_of_any_guarded Process.step CleansUp ⟨[], emptyTree⟩
    (publishing ++ [.step 0 (.callsBack .failure (.throws [])), .step 0 (.removes .done)])
    (fun p => p.saves[0]?.any fun s => s.exit = some .returned) (by decide)
  obtain ⟨s, hs, exit⟩ := (Option.any_eq_true ..).mp ended
  exact ⟨p, s, hs, of_decide_eq_true exit, (save_completes_once reach hs).1⟩

/-- The file cannot be removed in a callback that comes after the call. -/
theorem late_removal_loses_completion :
    ∃ (p : Process) (s : Save), Reaches Process.step Free ⟨[], emptyTree⟩ p ∧ p.saves[0]? = some s ∧
      ¬ CompletesOnce s := by
  obtain ⟨p, reach, lost⟩ := reaches_of_any Process.step ⟨[], emptyTree⟩
    (publishing ++ [.step 0 .returns, .step 0 (.callsBack (.success (some ['Q'])) (.throws []))])
    (fun p => p.saves[0]?.any fun s => s.Over && s.posts = 0 && s.exit = some .returned) (by decide)
  obtain ⟨s, hs, lost⟩ := (Option.any_eq_true ..).mp lost
  simp only [Bool.and_eq_true, decide_eq_true_eq] at lost
  obtain ⟨⟨ended, none⟩, exit⟩ := lost
  refine ⟨p, s, reach, hs, fun once => ?_⟩
  rcases once.complete ended with threw | one
  · rw [exit] at threw
    cases threw
  · omega

end IPFSSaver

end AsyncIOManager
