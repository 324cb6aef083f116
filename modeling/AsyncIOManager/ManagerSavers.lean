import AsyncIOManager.IPFSCompletion
import AsyncIOManager.MNNEnding
import AsyncIOManager.SFTPEnding

namespace AsyncIOManager

open Reactor Files

namespace MNNSaver

variable {φ : Type} {target : Str → φ} {s t : Saving φ} {n : Nat} {l : Label Ec Unit Act}

/-- A save of `n` files whose call has returned. -/
structure Left (n : Nat) (s : Saving φ) : Prop where
  tally : Tally n s
  exit : s.state.exit = some .returned
  inRange : s.state.outOfRange = false

theorem Tally.atMost (h : Tally n s) : s.state.handleWrites ≤ 1 := by
  cases h.course with
  | running _ _ _ called => rw [called]; split <;> omega
  | refused _ _ called => omega
  | broken _ _ _ _ called => omega

namespace Left

theorem left (hs : Left n s) : s.state.exit ≠ none := by
  rw [hs.exit]
  exact Option.some_ne_none _

/-- A save at rest has called `handle_write` if it had a file to save. -/
theorem named (hs : Left n s) (idle : s.pool = []) : s.state.handleWrites = if 0 < n then 1 else 0 := by
  rw [hs.tally.rests hs.left idle]
  simp [hs.exit]

/-- A save of no file has nothing queued. -/
theorem idle (hs : Left 0 s) : s.pool = [] := by
  have bound := hs.tally.bound
  have split : s.pool.length = writes s + posted s := by
    simp [writes, posted, List.length_eq_countP_add_countP (fun x : Entry Handler Ec => x.handler.isWrite)]
  apply List.length_eq_zero_iff.mp
  cases hs.tally.course with
  | running _ count unposted => omega
  | refused _ waits => omega
  | broken e exit other =>
    rw [hs.exit] at exit
    exact absurd (Option.some.inj exit).symm other

/-- The files of a save may have changed under it. -/
theorem on (hs : Left n s) (disk : Disk φ Char) : Left n (s.modify fun m => { m with disk }) := by
  refine ⟨⟨?_, hs.tally.bound, hs.tally.pending⟩, hs.exit, hs.inRange⟩
  cases hs.tally.course with
  | running how count unposted called => exact .running how count unposted called
  | refused exit waits called => exact .refused exit waits called
  | broken e exit other unposted called queued => exact .broken e exit other unposted called queued

end Left

section Calls

variable [DecidableEq φ]

/-- `SaveASync` as its caller sees it: the loop runs until it returns. A call that throws is none,
nor is one that reads past the contents. -/
def returned (target : Str → φ) (filename : Str) (data : ResultType) (nullData : Bool) (uuid : Str)
    (saveLocation : Option Str) (disk : Disk φ Char) (openings : List Opening) : Option (Saving φ) :=
  (exec (machine target).step (saveASync filename data nullData uuid saveLocation disk)
    (openings.map fun o => .call (.next o))).filter fun s => s.state.exit = some .returned ∧ s.state.outOfRange = false

theorem left_returned {filename : Str} {data : ResultType} {nullData : Bool} {uuid : Str} {saveLocation : Option Str}
    {disk : Disk φ Char} {openings : List Opening}
    (h : returned target filename data nullData uuid saveLocation disk openings = some s) :
    Left (toSave data).first.length s := by
  obtain ⟨run, left⟩ := Option.filter_eq_some_iff.mp h
  obtain ⟨exit, inRange⟩ := of_decide_eq_true left
  exact ⟨(reaches_of_exec run).invariant (fun _ _ _ h _ step => h.step step) (tally_saveASync ..), exit, inRange⟩

/-- The loop alone calls nothing back. -/
theorem returned_untold {filename : Str} {data : ResultType} {nullData : Bool} {uuid : Str} {saveLocation : Option Str}
    {disk : Disk φ Char} {openings : List Opening}
    (h : returned target filename data nullData uuid saveLocation disk openings = some s) : s.state.handleWrites = 0 := by
  have quiet (ls : List (Label Ec Unit Act)) (loop : ∀ l ∈ ls, ∃ o, l = .call (.next o)) (s t : Saving φ)
      (run : exec (machine target).step s ls = some t) : t.state.handleWrites = s.state.handleWrites := by
    induction ls generalizing s with
    | nil =>
      cases Option.some.inj run
      rfl
    | cons l ls ih =>
      obtain ⟨u, step, rest⟩ := Option.bind_eq_some_iff.mp run
      obtain ⟨o, rfl⟩ := loop l List.mem_cons_self
      have same : u.state.handleWrites = s.state.handleWrites := by
        cases (next_pass step).2 with
        | returns | throws => rfl
        | refused stream | outOfRange stream | starts stream => cases stream <;> rfl
      exact (ih (fun l hl => loop l (List.mem_cons_of_mem _ hl)) u rest).trans same
  obtain ⟨run, _⟩ := Option.filter_eq_some_iff.mp h
  refine (quiet _ (fun l hl => ?_) _ _ run).trans ?_
  · obtain ⟨o, _, rfl⟩ := List.mem_map.mp hl
    exact ⟨o, rfl⟩
  · unfold saveASync
    split
    next => rfl
    next => rfl
    next => split <;> rfl

/-- Behind the loop a save calls `handle_write` or leaves it. -/
theorem step_calls (left : s.state.exit ≠ none) (h : (machine target).step s l = some t) :
    t.state.exit = s.state.exit ∧ t.state.outOfRange = s.state.outOfRange ∧
      (t.state.handleWrites = s.state.handleWrites ∨ t.state.handleWrites = s.state.handleWrites + 1) := by
  rcases Machine.step_cases h with ⟨_, _, _, _, _, hc, _⟩ | ⟨k, _, x, e, rest, rfl, hk, hr⟩ | ⟨a, rfl, ha⟩
  · cases hc
  · have counted (m : Save φ) : (countDown m).exit = m.exit ∧ (countDown m).outOfRange = m.outOfRange ∧
        ((countDown m).handleWrites = m.handleWrites ∨ (countDown m).handleWrites = m.handleWrites + 1) := by
      unfold countDown
      dsimp only
      split
      · exact ⟨rfl, rfl, .inr rfl⟩
      · exact ⟨rfl, rfl, .inl rfl⟩
    cases x with
    | write file content written =>
      obtain rfl := Option.some.inj hr
      cases e with
      | success | error => exact counted _
    | handleWrite =>
      obtain rfl := Option.some.inj hr
      exact ⟨rfl, rfl, .inr rfl⟩
  · cases a with
    | next o => exact absurd (next_pass ha).1 left
    | transfer k n =>
      obtain ⟨_, _, _, _, _, rfl⟩ := transfer_cases ha
      exact ⟨rfl, rfl, .inl rfl⟩
    | complete k e =>
      obtain ⟨_, _, _, _, _, rfl⟩ := complete_cases ha
      exact ⟨rfl, rfl, .inl rfl⟩

namespace Left

theorem step (hs : Left n s) (h : (machine target).step s l = some t) :
    Left n t ∧ (t.state.handleWrites = s.state.handleWrites ∨ s.state.handleWrites = 0 ∧ t.state.handleWrites = 1) := by
  have tally := hs.tally.step h
  have once := tally.atMost
  obtain ⟨exit, range, calls⟩ := step_calls hs.left h
  refine ⟨⟨tally, exit.trans hs.exit, range.trans hs.inRange⟩, ?_⟩
  omega

/-- A save that has called `handle_write` or has something queued is not lost. -/
theorem goes_on (target : Str → φ) (hs : Left n s) (pending : s.pool ≠ []) :
    ∃ l t, (machine target).step s l = some t ∧ rank t < rank s := by
  obtain ⟨l, t, step, moves, outside⟩ := hs.tally.goes_on target pending
  have inRange : t.state.outOfRange = false := (step_calls hs.left step).2.1.trans hs.inRange
  have lower := step_pays step inRange
  rw [moves] at lower
  exact ⟨l, t, step, lower⟩

end Left

/-- A call can return at once: the first file cannot be opened, or there is none. -/
theorem returns (target : Str → φ) (filename : Str) (p : Payload) (uuid : Str) (saveLocation : Option Str)
    (disk : Disk φ Char) :
    ∃ s, returned target filename (.success (some p)) false uuid saveLocation disk [.tried false false] = some s := by
  cases hp : p.first with
  | nil => simp [returned, exec, saveASync, Machine.step, machine, Act.perform, next, hp, Save.leave]
  | cons path todo => simp [returned, exec, saveASync, Machine.step, machine, Act.perform, next, hp, Save.leave]

end Calls

end MNNSaver

namespace IPFSSaver

variable {s v : Save} {t u : Tree} {a : Act}

/-- A step of a call, as long as it is not left. -/
def inside (p : Save × Tree) (a : Act) : Option (Save × Tree) :=
  if p.1.exit = none then p.1.step a p.2 else none

/-- `SaveASync` as its caller sees it, when it returns. -/
def returned (data : ResultType) (bitswap : Bool) (saveLocation : Option Str) (acts : List Act) (t : Tree) :
    Option (Save × Tree) :=
  (exec inside (saveASync data bitswap saveLocation, t) acts).filter fun p => p.1.exit = some .returned

/-- A save whose call has returned waits for its publishing, has completed, or has been dropped by
its clean-up. -/
inductive Left (s : Save) : Prop
  | waiting : s.exit = some .returned → s.stage = .publishing → s.posts = 0 → Left s
  | complete : s.exit = some .returned → s.stage = .finished → s.posts = 1 → Left s
  | dropped : s.exit = some .returned → s.stage = .finished → s.posts = 0 → Left s

/-- Nothing has dropped the completion. -/
def Save.kept (s : Save) : Prop := s.stage = .finished → s.posts = 1

theorem posted_returned {data : ResultType} {bitswap : Bool} {saveLocation : Option Str} {acts : List Act}
    (h : returned data bitswap saveLocation acts t = some (s, u)) : Posted s ∧ s.exit = some .returned := by
  obtain ⟨run, left⟩ := Option.filter_eq_some_iff.mp h
  refine ⟨?_, of_decide_eq_true left⟩
  refine (reaches_of_exec run).invariant (P := fun p => Posted p.1) ?_ (posted_saveASync data bitswap saveLocation)
  intro p a q posted _ step
  unfold inside at step
  split at step
  next inside => exact posted.step (Save.step_steps step) fun _ _ _ => inside
  next => cases step

theorem left_returned {data : ResultType} {bitswap : Bool} {saveLocation : Option Str} {acts : List Act}
    (h : returned data bitswap saveLocation acts t = some (s, u)) : Left s ∧ s.kept := by
  obtain ⟨posted, left⟩ := posted_returned h
  rcases posted with ⟨exit, _, _⟩ | ⟨exit, _, _⟩ | ⟨exit, stage, posts⟩ | ⟨exit, stage, posts⟩ | ⟨exit, _, _⟩
  · rw [left] at exit
    cases exit
  · rw [left] at exit
    cases exit
  · exact ⟨.waiting exit stage posts, fun done => by rw [stage] at done; cases done⟩
  · exact ⟨.complete exit stage posts, fun _ => posts⟩
  · rw [left] at exit
    cases exit

theorem Left.exit (hs : Left s) : s.exit = some .returned := by
  cases hs with
  | waiting exit | complete exit | dropped exit => exact exit

theorem Left.atMost (hs : Left s) : s.posts ≤ 1 := by
  cases hs with
  | waiting _ _ posts | complete _ _ posts | dropped _ _ posts => omega

/-- Only the publishing of a save goes on when its call has returned. -/
theorem Left.steps (hs : Left s) (steps : s.Steps t a v u) : s.stage = .publishing ∧
    (a = .reads ∧ v.exit = s.exit ∧ v.stage = .publishing ∧ v.posts = s.posts ∨
      (∃ result, a = .callsBack result .done) ∧ v.exit = s.exit ∧ v.stage = .finished ∧ v.posts = s.posts + 1 ∨
      (∃ result removed, a = .callsBack result (.throws removed)) ∧ v.exit = s.exit ∧ v.stage = .finished ∧
        v.posts = s.posts) := by
  have exit := hs.exit
  have stage : s.stage = .publishing ∨ s.stage = .finished := by
    cases hs with
    | waiting _ stage => exact .inl stage
    | complete _ stage | dropped _ stage => exact .inr stage
  cases steps with
  | reads hs => exact ⟨hs, .inl ⟨rfl, rfl, hs, rfl⟩⟩
  | calledBack result hs _ =>
    refine ⟨hs, .inr (.inl ⟨⟨result, rfl⟩, Save.report_exit s result, rfl, ?_⟩)⟩
    simp [Save.goto, Save.post, Save.report_posts]
  | uncleaned result removed hs _ =>
    refine ⟨hs, .inr (.inr ⟨⟨result, removed, rfl⟩, rfl, ?_, rfl⟩)⟩
    simp [Save.goto, exit]
  | returns _ inside =>
    rw [exit] at inside
    cases inside
  | thrown hs =>
    rcases hs with trying | ⟨_, inside⟩
    · rcases stage with stage | stage
      · rw [stage] at trying
        cases trying
      · rw [stage] at trying
        cases trying
    · rw [exit] at inside
      cases inside
  | publishes hs => rcases stage with stage | stage <;> rcases hs with hs | hs <;> rw [stage] at hs <;> cases hs
  | named _ _ hs | unnamed hs | refused hs | openedTemp hs | wroteTemp _ hs | looked hs | removed hs | unremoved _ hs
  | created hs | parent hs | opened hs | skipped hs | wrote _ hs | recovered hs | unrecovered _ hs =>
    rcases stage with stage | stage <;> rw [stage] at hs <;> cases hs

theorem Left.step (hs : Left s) (steps : s.Steps t a v u) :
    Left v ∧ (v.posts = s.posts ∨ s.posts = 0 ∧ v.posts = 1) := by
  have exit := hs.exit
  obtain ⟨publishing, cases⟩ := hs.steps steps
  have none : s.posts = 0 := by
    cases hs with
    | waiting _ _ posts => exact posts
    | complete _ stage | dropped _ stage => rw [publishing] at stage; cases stage
  rcases cases with ⟨_, same, stage, posts⟩ | ⟨_, same, stage, posts⟩ | ⟨_, same, stage, posts⟩
  · exact ⟨.waiting (same.trans exit) stage (posts.trans none), .inl posts⟩
  · rw [none] at posts
    exact ⟨.complete (same.trans exit) stage posts, .inr ⟨none, posts⟩⟩
  · exact ⟨.dropped (same.trans exit) stage (posts.trans none), .inl posts⟩

/-- A callback that cleans up drops nothing. -/
theorem Left.keeps (hs : Left s) (steps : s.Steps t a v u) (quiet : a.quiet = true) : v.kept := by
  obtain ⟨_, step⟩ := hs.step steps
  obtain ⟨_, ⟨_, _, stage, _⟩ | ⟨_, _, _, posts⟩ | ⟨⟨result, removed, rfl⟩, _⟩⟩ := hs.steps steps
  · intro done
    rw [stage] at done
    cases done
  · intro _
    omega
  · cases quiet

/-- A save that is not lost goes on, or has posted its completion. -/
theorem Left.goes_on (hs : Left s) (found : ¬ (s.stage = .finished ∧ s.posts = 0)) (t : Tree) :
    s.posts = 1 ∨ ∃ a v u, s.step a t = some (v, u) ∧ v.rank + v.posts < s.rank + s.posts := by
  cases hs with
  | waiting exit stage posts =>
    refine .inr ⟨.callsBack .failure .done, _, _, by simp [Save.step, stage]; rfl, ?_⟩
    simp [Save.rank, Save.goto, Save.post, Save.report, exit, stage]
    omega
  | complete _ _ posts => exact .inl posts
  | dropped _ stage posts => exact absurd ⟨stage, posts⟩ found

/-- A call can return at once: the temporary file cannot be opened, or the directory is not looked at. -/
theorem returns (data : ResultType) (bitswap : Bool) (saveLocation : Option Str) (t : Tree) :
    ∃ acts p, returned data bitswap saveLocation acts t = some p := by
  have done : ∃ p, (exec inside (refused saveLocation, t) []).filter (fun p => p.1.exit = some .returned) = some p :=
    ⟨_, rfl⟩
  unfold returned saveASync
  split
  next => exact ⟨[], done⟩
  next => exact ⟨[], done⟩
  next data =>
    split
    next => exact ⟨[], done⟩
    next =>
      split
      next => exact ⟨[], done⟩
      next =>
        split
        next => exact ⟨[], done⟩
        next =>
          by_cases single : data.first.length = 1
          · rw [if_pos single]
            exact ⟨[.tempDirectoryPath [] 0, .fails], by simp [exec, inside, Save.step, Save.named, Save.fail, Save.leave, Save.post]⟩
          · rw [if_neg single]
            exact ⟨[.throws, .removes .done], by simp [exec, inside, Save.step, Save.throw, Save.goto, Save.remove, Save.leave, Save.post]⟩

end IPFSSaver

namespace SFTPSaver

open SFTPUploadDevice

variable {s t : Saving} {l : Label Ec Ssh2 Resolve}

/-- `SaveASync` as its caller sees it: the loop creates a device for each file. -/
def returned (filename : Str) (data : ResultType) (saveLocation : Option Str) (resolves : List Resolve) : Option Saving :=
  (exec machine.step (saveASync filename data saveLocation) (resolves.map .call)).filter fun s => s.state.files.isEmpty

/-- A save whose call has returned. -/
structure Left (s : Saving) : Prop where
  tracked : Tracked s
  posted : Posted s
  counts : (∃ n, Counted n s) ∨ Rejected s
  created : s.state.files = []

theorem counts_step (tracked : Tracked s) (counts : (∃ n, Counted n s) ∨ Rejected s) (h : machine.step s l = some t) :
    (∃ n, Counted n t) ∨ Rejected t := by
  rcases counts with ⟨n, counted⟩ | rejected
  · exact .inl ⟨n, counted.step tracked h⟩
  · exact .inr (rejected.step h)

theorem left_returned {filename : Str} {data : ResultType} {saveLocation : Option Str} {resolves : List Resolve}
    (h : returned filename data saveLocation resolves = some s) : Left s := by
  obtain ⟨run, created⟩ := Option.filter_eq_some_iff.mp h
  have counts : (∃ n, Counted n (saveASync filename data saveLocation)) ∨
      Rejected (saveASync filename data saveLocation) := by
    rcases saveASync_cases filename data saveLocation with ⟨n, _, counted⟩ | ⟨_, rejected⟩
    · exact .inl ⟨n, counted⟩
    · exact .inr rejected
  have all : Tracked s ∧ Posted s ∧ ((∃ n, Counted n s) ∨ Rejected s) :=
    (reaches_of_exec run).invariant (P := fun s => Tracked s ∧ Posted s ∧ ((∃ n, Counted n s) ∨ Rejected s))
      (fun _ _ _ hs _ step => ⟨hs.1.step step, hs.2.1.step step, counts_step hs.1 hs.2.2 step⟩)
      ⟨tracked_saveASync filename data saveLocation, posted_saveASync filename data saveLocation, counts⟩
  exact ⟨all.1, all.2.1, all.2.2, List.isEmpty_iff.mp created⟩

/-- A step calls `handle_write` or leaves it. -/
theorem step_calls (h : machine.step s l = some t) :
    (t.state.handleWrites = s.state.handleWrites ∨ t.state.handleWrites = s.state.handleWrites + 1) ∧
      (s.state.files = [] → t.state.files = []) := by
  rcases Machine.step_cases h with
    ⟨k, e, x, _, _, _, rfl⟩ | ⟨k, ssh, x, e, rest, _, hk, hr⟩ | ⟨resolve, _, hr⟩
  · exact ⟨.inl rfl, id⟩
  · rcases run_cases hr with ⟨i, c, u, _, _, _, rfl⟩ | ⟨i, _, rfl⟩ | ⟨_, rfl⟩
    · exact ⟨.inl rfl, id⟩
    · have done : (uploadDone s.state).handleWrites = s.state.handleWrites ∨
          (uploadDone s.state).handleWrites = s.state.handleWrites + 1 := by
        unfold uploadDone
        dsimp only
        split
        · exact .inr rfl
        · exact .inl rfl
      exact ⟨done, fun none => (uploadDone_frame s.state).1.trans none⟩
    · exact ⟨.inr rfl, id⟩
  · obtain ⟨device, files, hf, rfl⟩ := startUpload_cases hr
    exact ⟨.inl rfl, fun none => by rw [hf] at none; cases none⟩

/-- The loop alone calls nothing back. -/
theorem returned_untold {filename : Str} {data : ResultType} {saveLocation : Option Str} {resolves : List Resolve}
    (h : returned filename data saveLocation resolves = some s) : s.state.handleWrites = 0 := by
  have quiet (resolves : List Resolve) (s t : Saving)
      (run : exec machine.step s (resolves.map .call) = some t) : t.state.handleWrites = s.state.handleWrites := by
    induction resolves generalizing s with
    | nil =>
      cases Option.some.inj run
      rfl
    | cons resolve resolves ih =>
      obtain ⟨u, step, rest⟩ := Option.bind_eq_some_iff.mp run
      obtain ⟨_, _, _, eq⟩ := startUpload_cases step
      have same : u.state.handleWrites = s.state.handleWrites := by
        rw [eq]
        rfl
      exact (ih u rest).trans same
  obtain ⟨run, _⟩ := Option.filter_eq_some_iff.mp h
  refine (quiet resolves _ s run).trans ?_
  exact saveASync_starts (P := fun s => s.state.handleWrites = 0) rfl fun _ _ _ => rfl

/-- A server that turns down every call. -/
def refuses : Ssh2 where
  handshake := -1
  userauth := -1
  sftpInit := 0
  initErrno := -1
  sftpOpen := 0
  openErrno := -1
  sftpWrite _ := -1
  sftpWrite_le len := by omega

/-- It asks for nothing to be tried again. -/
theorem refused_retries (device : SFTPUploadDevice) (c : Continuation) (ec : Ec) (d : Done) :
    (c.run device ec refuses ⟨d, []⟩).state.retries = d.retries := by
  have plain {c : Ssh2Call} (never : c.again = false) (s : Turn) :
      (call c s).state.retries = s.state.retries := by
    rw [retries_call, never]
    rfl
  cases c with
  | connect endpoints =>
    cases ec with
    | success => exact (plain (c := .handshake (-1)) rfl _).trans (plain (c := .setBlocking false) rfl ⟨d, []⟩)
    | error => rfl
  | handshake =>
    cases ec with
    | success => exact plain (c := .handshake (-1)) rfl ⟨d, []⟩
    | error => rfl
  | auth =>
    cases ec with
    | success => exact plain (c := device.userauth (-1)) (again_userauth device (-1)) ⟨d, []⟩
    | error => rfl
  | createSFTP =>
    cases ec with
    | success => exact (plain (c := .lastErrno (-1)) rfl _).trans (plain (c := .sftpInit 0) rfl ⟨d, []⟩)
    | error => rfl
  | sftpOpen sftp =>
    cases ec with
    | success => exact (plain (c := .lastErrno (-1)) rfl _).trans (plain (c := .sftpOpen sftp _ 0) rfl ⟨d, []⟩)
    | error => rfl
  | writeBlocks sftp sftpHandle total =>
    cases ec with
    | success =>
      change (startSFTPWriteBlocks device refuses sftp sftpHandle total ⟨d, []⟩).state.retries = d.retries
      unfold startSFTPWriteBlocks
      by_cases whole : sizeSub device.fileContent.length total = 0
      · simp only [if_pos whole]
        exact startSFTPCleanup_retries sftpHandle sftp _
      · simp only [if_neg whole]
        exact (startSFTPCleanup_retries sftpHandle sftp _).trans
          (plain (c := .sftpWrite sftpHandle total _ (-1)) rfl ⟨d, []⟩)
    | error => exact startSFTPCleanup_retries sftpHandle sftp _
  | completion => rfl

namespace Left

theorem atMost (hs : Left s) : s.state.handleWrites ≤ 1 := by
  rcases hs.counts with ⟨n, counted⟩ | rejected
  · rw [counted.handleWrites]
    split <;> omega
  · have tokens := rejected.tokens
    omega

theorem step (hs : Left s) (h : machine.step s l = some t) :
    Left t ∧ (t.state.handleWrites = s.state.handleWrites ∨ s.state.handleWrites = 0 ∧ t.state.handleWrites = 1) := by
  obtain ⟨calls, created⟩ := step_calls h
  have next : Left t := ⟨hs.tracked.step h, hs.posted.step h, counts_step hs.tracked hs.counts h, created hs.created⟩
  have once := next.atMost
  exact ⟨next, by omega⟩

/-- A save that has not called `handle_write` has something pending. -/
theorem pending (hs : Left s) (untold : s.state.handleWrites = 0) : s.pool ≠ [] := by
  intro idle
  rcases hs.counts with ⟨n, counted⟩ | rejected
  · have tokens := counted.tokens
    rw [idle, hs.created] at tokens
    have none : s.state.remainingWrites = 0 := tokens.symm
    have called := counted.handleWrites
    rw [if_pos none] at called
    omega
  · have tokens := rejected.tokens
    rw [idle, List.length_nil] at tokens
    omega

theorem goes_on (hs : Left s) (untold : s.state.handleWrites = 0) :
    ∃ l t, machine.step s l = some t ∧ rank (plan t) t < rank (plan s) s := by
  have pays {l : Label Ec Ssh2 Resolve} {t : Saving} (step : machine.step s l = some t)
      (same : retries t = retries s) : rank (plan t) t < rank (plan s) s := by
    have paid := step_pays step
    rw [plan_step step]
    omega
  obtain ⟨k, t, run | finish⟩ := SFTPSaver.goes_on hs.tracked hs.posted (hs.pending untold) refuses
  · refine ⟨_, t, run, pays run ?_⟩
    rcases Machine.step_cases run with ⟨_, _, _, eq, _⟩ | ⟨_, _, x, e, rest, eq, hk, hr⟩ | ⟨_, eq, _⟩
    · cases eq
    · cases eq
      rcases run_cases hr with ⟨i, c, u, rfl, _, hu, rfl⟩ | ⟨i, _, rfl⟩ | ⟨_, rfl⟩
      · have sum := sum_map_set (w := fun u : Upload => u.done.retries) (y := u.handled c e refuses) hu
        have same : (u.handled c e refuses).done.retries = u.done.retries := refused_retries u.device c e _
        change ((s.state.uploads.set i (u.handled c e refuses)).map fun u => u.done.retries).sum = _
        simp only [retries] at sum ⊢
        omega
      · simp only [retries, Loop.modify_state, uploadDone_uploads]
      · rfl
    · cases eq
  · refine ⟨_, t, finish, pays finish ?_⟩
    rcases Machine.step_cases finish with ⟨_, _, _, _, _, _, rfl⟩ | ⟨_, _, _, _, _, eq, _⟩ | ⟨_, eq, _⟩
    · rfl
    · cases eq
    · cases eq

end Left

/-- A call can return whatever the hosts are. -/
theorem returns (filename : Str) (data : ResultType) (saveLocation : Option Str) :
    ∃ resolves s, returned filename data saveLocation resolves = some s := by
  have created (s : Saving) : ∃ t, exec machine.step s (s.state.files.map fun _ => .call .systemError) = some t ∧
      t.state.files = [] := by
    generalize hf : s.state.files = files
    induction files generalizing s with
    | nil => exact ⟨s, rfl, hf⟩
    | cons device files ih =>
      have step : ∃ t, machine.step s (.call .systemError) = some t ∧ t.state.files = files := by
        simp [Machine.step, machine, startUpload, hf, settle]
      obtain ⟨u, step, left⟩ := step
      obtain ⟨t, run, none⟩ := ih u left
      refine ⟨t, ?_, none⟩
      rw [List.map_cons, exec, step]
      exact run
  obtain ⟨t, run, none⟩ := created (saveASync filename data saveLocation)
  refine ⟨(saveASync filename data saveLocation).state.files.map fun _ => .systemError, t, ?_⟩
  rw [returned, List.map_map, Option.filter_eq_some_iff]
  exact ⟨run, List.isEmpty_iff.mpr none⟩

end SFTPSaver

end AsyncIOManager
