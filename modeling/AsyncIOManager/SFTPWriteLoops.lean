import AsyncIOManager.SFTPLocation
import AsyncIOManager.SFTPSaveFile

namespace AsyncIOManager

open Reactor Streaming

/-- The results that make the loop of `SaveFile` give up. -/
def syncFails (rc : Int) : Prop := rc < 0

/-- The results that make `StartSFTPWriteBlocks` give up. -/
def asyncFails (rc : Int) : Prop := rc ≤ 0 ∧ rc ≠ eagain

/-- A write accepts at most the bytes that are left. -/
def Permitted (size : Nat) (results : Nat → Int) : Prop :=
  ∀ n, moved results n < size → results n ≤ (size - moved results n : Nat)

namespace SFTPSaver

variable {sftpHandle : Ptr} {size : Nat} {results : Nat → Int}

/-- The loop of `SaveFile` on the first results: it waits, has given up or has finished. -/
theorem writeLoop_range (sftpHandle : Ptr) (n : Nat) {i : Nat} (working : Working syncFails size results i) :
    (writeLoop sftpHandle size (moved results i) ((List.range' i n).map results) = none ∧
      Working syncFails size results (i + n) ∧ moved results (i + n) < size) ∨
    ∃ calls,
      (writeLoop sftpHandle size (moved results i) ((List.range' i n).map results) = some (calls, false) ∧
        ∃ m, Fails syncFails size results m) ∨
      (writeLoop sftpHandle size (moved results i) ((List.range' i n).map results) = some (calls, true) ∧
        ∃ m, Completes syncFails size results m) := by
  induction n generalizing i with
  | zero =>
    by_cases more : moved results i < size
    · exact .inl ⟨by simp [writeLoop, more], working, more⟩
    · exact .inr ⟨[], .inr ⟨by simp [writeLoop, more], i, working, by omega⟩⟩
  | succ n ih =>
    rw [List.range'_succ, List.map_cons]
    by_cases more : moved results i < size
    · by_cases failed : results i < 0
      · refine .inr ⟨[.sftpWrite sftpHandle (moved results i) (size - moved results i) (results i)], .inl ⟨?_, ?_⟩⟩
        · simp [writeLoop, more, failed]
        · exact ⟨i, working, more, failed⟩
      · have rest : writeLoop sftpHandle size (moved results i) (results i :: (List.range' (i + 1) n).map results) =
            (writeLoop sftpHandle size (moved results (i + 1)) ((List.range' (i + 1) n).map results)).map
              fun r => (.sftpWrite sftpHandle (moved results i) (size - moved results i) (results i) :: r.1, r.2) := by
          simp [writeLoop, more, failed, moved]
        rw [rest]
        rcases ih (working.next more failed) with ⟨waits, further, room⟩ | ⟨calls, ⟨gives, m⟩ | ⟨gives, m⟩⟩
        · refine .inl ⟨by rw [waits]; rfl, ?_, ?_⟩
          · rwa [Nat.add_right_comm i 1 n] at further
          · rwa [Nat.add_right_comm i 1 n] at room
        · exact .inr ⟨_, .inl ⟨by rw [gives]; rfl, m⟩⟩
        · exact .inr ⟨_, .inr ⟨by rw [gives]; rfl, m⟩⟩
    · exact .inr ⟨[], .inr ⟨by simp [writeLoop, more], i, working, by omega⟩⟩

/-- What the loop of `SaveFile` makes of the first `n` results. -/
theorem writeLoop_cases (sftpHandle : Ptr) (size : Nat) (results : Nat → Int) (n : Nat) :
    (writeLoop sftpHandle size 0 ((List.range n).map results) = none ∧
      Working syncFails size results n ∧ moved results n < size) ∨
    ∃ calls,
      (writeLoop sftpHandle size 0 ((List.range n).map results) = some (calls, false) ∧
        ∃ m, Fails syncFails size results m) ∨
      (writeLoop sftpHandle size 0 ((List.range n).map results) = some (calls, true) ∧
        ∃ m, Completes syncFails size results m) := by
  have start : Working syncFails size results 0 := fun k hk => absurd hk (Nat.not_lt_zero k)
  have range := writeLoop_range sftpHandle n start
  rwa [Nat.zero_add, ← List.range_eq_range'] at range

/-- The loop of `SaveFile` throws if and only if a result makes it give up. -/
theorem writeLoop_fails_iff (sftpHandle : Ptr) (size : Nat) (results : Nat → Int) :
    (∃ n calls, writeLoop sftpHandle size 0 ((List.range n).map results) = some (calls, false)) ↔
      ∃ m, Fails syncFails size results m := by
  constructor
  · rintro ⟨n, calls, gives⟩
    rcases writeLoop_cases sftpHandle size results n with ⟨waits, _⟩ | ⟨calls', ⟨_, failed⟩ | ⟨done, _⟩⟩
    · cases gives.symm.trans waits
    · exact failed
    · cases gives.symm.trans done
  · rintro ⟨m, failed⟩
    rcases writeLoop_cases sftpHandle size results (m + 1) with
      ⟨_, further, _⟩ | ⟨calls, ⟨gives, _⟩ | ⟨_, k, done⟩⟩
    · have le := failed.le further
      omega
    · exact ⟨m + 1, calls, gives⟩
    · exact absurd done failed.not_completes

theorem writeLoop_completes_iff (sftpHandle : Ptr) (size : Nat) (results : Nat → Int) :
    (∃ n calls, writeLoop sftpHandle size 0 ((List.range n).map results) = some (calls, true)) ↔
      ∃ m, Completes syncFails size results m := by
  constructor
  · rintro ⟨n, calls, gives⟩
    rcases writeLoop_cases sftpHandle size results n with ⟨waits, _⟩ | ⟨calls', ⟨failed, _⟩ | ⟨_, done⟩⟩
    · cases gives.symm.trans waits
    · cases gives.symm.trans failed
    · exact done
  · rintro ⟨m, done⟩
    rcases writeLoop_cases sftpHandle size results m with ⟨_, _, room⟩ | ⟨calls, ⟨_, k, failed⟩ | ⟨gives, _⟩⟩
    · have whole := done.whole
      omega
    · exact absurd done failed.not_completes
    · exact ⟨m, calls, gives⟩

/-- A loop that finishes has handed over the content from where it has started. -/
theorem writeLoop_accepted {content : Str} {total : Nat} {rcs : List Int} {calls : List Ssh2Call}
    (h : writeLoop sftpHandle content.length total rcs = some (calls, true)) :
    Write.accepted content (SFTPUploadDevice.writes calls) = content.drop total := by
  induction rcs generalizing total calls with
  | nil =>
    simp only [writeLoop] at h
    split at h
    next => cases h
    next whole =>
      cases Option.some.inj h
      exact (List.drop_eq_nil_of_le (by omega)).symm
  | cons rc rcs ih =>
    simp only [writeLoop] at h
    split at h
    next =>
      split at h
      next => cases Option.some.inj h
      next =>
        obtain ⟨⟨more, done⟩, hm, he⟩ := Option.map_eq_some_iff.mp h
        cases he
        change (content.drop total).take rc.toNat ++ Write.accepted content (SFTPUploadDevice.writes more) = _
        rw [ih hm, ← List.drop_drop, List.take_append_drop]
    next whole =>
      cases Option.some.inj h
      exact (List.drop_eq_nil_of_le (by omega)).symm

end SFTPSaver

namespace SFTPUploadDevice

/-- What a handler meets whose write returns `rc`, or what it asks for if that is less. -/
def answer (rc : Int) : Ssh2 where
  sftpWrite len := min rc len
  sftpWrite_le len := Int.min_le_right rc len

/-- The socket has become writable for a device that waits with more to write. -/
def pass (self : SFTPUploadDevice) (rc : Int) (s : Turn) : Turn :=
  match s.pool with
  | ⟨.writeBlocks sftp sftpHandle totalBytesWritten, _⟩ :: pool =>
    (Continuation.writeBlocks sftp sftpHandle totalBytesWritten).run self .success (answer rc) ⟨s.state, pool⟩
  | _ => s

/-- A device that has opened its file, after the passes that get the first `n` results. -/
def passes (self : SFTPUploadDevice) (sftp sftpHandle : Ptr) (d : Done) (results : Nat → Int) : Nat → Turn
  | 0 => ⟨d, [⟨.writeBlocks sftp sftpHandle 0, none⟩]⟩
  | n + 1 => pass self (results n) (passes self sftp sftpHandle d results n)

variable {device : SFTPUploadDevice} {sftp sftpHandle : Ptr} {d : Done} {results : Nat → Int}

theorem startSFTPCleanup_pool (sftpHandle sftp : Ptr) (s : Turn) :
    (startSFTPCleanup sftpHandle sftp s).pool = s.pool := by
  unfold startSFTPCleanup
  simp only [call, Loop.modify]
  split <;> split <;> rfl

/-- What one pass of the write loop leads to. -/
theorem startSFTPWriteBlocks_cases (device : SFTPUploadDevice) (ssh : Ssh2) (sftp sftpHandle : Ptr)
    {total : Nat} (le : total ≤ device.fileContent.length) (s : Turn) :
    let size := device.fileContent.length
    let rc := ssh.sftpWrite (size - total)
    let r := startSFTPWriteBlocks device ssh sftp sftpHandle total s
    (total < size ∧ ¬ asyncFails rc ∧ total + rc.toNat < size ∧
      r.pool = s.pool ++ [⟨.writeBlocks sftp sftpHandle (total + rc.toNat), none⟩]) ∨
    ((total = size ∨ (total < size ∧ ¬ asyncFails rc ∧ size ≤ total + rc.toNat)) ∧
      r.pool = s.pool ++ [⟨.completion, some .success⟩] ∧ r.state.left = some .complete) ∨
    (total < size ∧ asyncFails rc ∧
      r.pool = s.pool ++ [⟨.completion, some .success⟩] ∧ r.state.left = some .writeError) := by
  have finished (l : Leave) (s : Turn) :
      (doWriteCallback (startSFTPCleanup sftpHandle sftp (leave l s))).pool =
          s.pool ++ [⟨.completion, some .success⟩] ∧
        (doWriteCallback (startSFTPCleanup sftpHandle sftp (leave l s))).state.left = some l := by
    refine ⟨?_, (startSFTPCleanup_keeps sftpHandle sftp (leave l s)).1⟩
    change (startSFTPCleanup sftpHandle sftp (leave l s)).pool ++ _ = _
    rw [startSFTPCleanup_pool]
    rfl
  have remaining : sizeSub device.fileContent.length total = device.fileContent.length - total := if_pos le
  unfold startSFTPWriteBlocks
  simp only [remaining]
  generalize ssh.sftpWrite (device.fileContent.length - total) = rc
  by_cases none : device.fileContent.length - total = 0
  · rw [if_pos none]
    exact .inr (.inl ⟨.inl (by omega), finished .complete s⟩)
  · rw [if_neg none]
    by_cases some : 0 < rc
    · have fine : ¬ asyncFails rc := fun failed => absurd failed.1 (by omega)
      rw [if_pos some]
      by_cases whole : device.fileContent.length ≤ total + rc.toNat
      · rw [if_pos whole]
        exact .inr (.inl ⟨.inr ⟨by omega, fine, whole⟩, finished .complete _⟩)
      · rw [if_neg whole]
        exact .inl ⟨by omega, fine, by omega, rfl⟩
    · have nothing : total + rc.toNat = total := by omega
      rw [if_neg some]
      by_cases again : rc = eagain
      · have fine : ¬ asyncFails rc := fun failed => failed.2 again
        rw [if_pos again]
        refine .inl ⟨by omega, fine, by omega, ?_⟩
        rw [nothing]
        rfl
      · rw [if_neg again]
        exact .inr (.inr ⟨by omega, ⟨by omega, again⟩, finished .writeError _⟩)

/-- A device between its passes: it waits for the next one, has finished or has given up. -/
inductive Between (device : SFTPUploadDevice) (sftp sftpHandle : Ptr) (results : Nat → Int) (n : Nat) (s : Turn) : Prop
  | waits : Working asyncFails device.fileContent.length results n →
      (n = 0 ∨ moved results n < device.fileContent.length) →
      s.pool = [⟨.writeBlocks sftp sftpHandle (moved results n), none⟩] →
      Ready device (.writing sftp sftpHandle) (moved results n) s.state → Between device sftp sftpHandle results n s
  | finished (m : Nat) : Completes asyncFails device.fileContent.length results m →
      s.pool = [⟨.completion, some .success⟩] → Closed device s.state → s.state.left = some .complete →
      Between device sftp sftpHandle results n s
  | failed (m : Nat) : Fails asyncFails device.fileContent.length results m →
      s.pool = [⟨.completion, some .success⟩] → s.state.left = some .writeError →
      Between device sftp sftpHandle results n s

theorem passes_between (sftpSome : sftp ≠ 0) (handleSome : sftpHandle ≠ 0)
    (ready : Ready device (.writing sftp sftpHandle) 0 d) (permitted : Permitted device.fileContent.length results)
    (n : Nat) : Between device sftp sftpHandle results n (passes device sftp sftpHandle d results n) := by
  induction n with
  | zero => exact .waits (fun k hk => absurd hk (Nat.not_lt_zero k)) (.inl rfl) rfl ready
  | succ n ih =>
    rw [passes]
    generalize passes device sftp sftpHandle d results n = s at ih ⊢
    cases ih with
    | finished m done pool closed left =>
      have same : pass device (results n) s = s := by simp [pass, pool]
      rw [same]
      exact .finished m done pool closed left
    | failed m failed pool left =>
      have same : pass device (results n) s = s := by simp [pass, pool]
      rw [same]
      exact .failed m failed pool left
    | waits working room pool ready =>
      have next : pass device (results n) s =
          startSFTPWriteBlocks device (answer (results n)) sftp sftpHandle (moved results n) ⟨s.state, []⟩ := by
        simp [pass, pool, Continuation.run]
      have le := ready.moved.total_le
      obtain ⟨c, o, held, holds⟩ := startSFTPWriteBlocks_fits (s := ⟨s.state, []⟩) (answer (results n)) sftpSome
        handleSome ready
      have given (more : moved results n < device.fileContent.length) :
          (answer (results n)).sftpWrite (device.fileContent.length - moved results n) = results n :=
        Int.min_eq_left (permitted n more)
      rw [next]
      rcases startSFTPWriteBlocks_cases device (answer (results n)) sftp sftpHandle le ⟨s.state, []⟩ with
        ⟨more, fine, further, waits⟩ | ⟨whole, posted, left⟩ | ⟨more, stops, posted, left⟩
      · rw [given more] at fine further waits
        have entry : (⟨c, o⟩ : Entry Continuation Ec) = ⟨.writeBlocks sftp sftpHandle (moved results (n + 1)), none⟩ := by
          rw [held] at waits
          simpa [moved] using waits
        cases entry
        exact .waits (working.next more fine) (.inr further) waits holds.2.2
      · have entry : (⟨c, o⟩ : Entry Continuation Ec) = ⟨.completion, some .success⟩ := by
          rw [held] at posted
          simpa using posted
        cases entry
        rcases whole with whole | ⟨more, fine, whole⟩
        · exact .finished n ⟨working, by omega⟩ posted holds left
        · rw [given more] at fine whole
          exact .finished (n + 1) ⟨working.next more fine, whole⟩ posted holds left
      · rw [given more] at stops
        exact .failed n ⟨working, more, stops⟩ posted left

/-- The passes take the write-error branch if and only if a result makes the loop give up. -/
theorem passes_fail_iff (sftpSome : sftp ≠ 0) (handleSome : sftpHandle ≠ 0)
    (ready : Ready device (.writing sftp sftpHandle) 0 d) (permitted : Permitted device.fileContent.length results) :
    (∃ n, (passes device sftp sftpHandle d results n).state.left = some .writeError) ↔
      ∃ m, Fails asyncFails device.fileContent.length results m := by
  constructor
  · rintro ⟨n, error⟩
    cases passes_between sftpSome handleSome ready permitted n with
    | waits _ _ _ ready =>
      rw [ready.left] at error
      cases error
    | finished _ _ _ _ left =>
      rw [left] at error
      cases error
    | failed m failed _ _ => exact ⟨m, failed⟩
  · rintro ⟨m, failed⟩
    refine ⟨m + 1, ?_⟩
    cases passes_between sftpSome handleSome ready permitted (m + 1) with
    | waits working _ _ _ =>
      have le := failed.le working
      omega
    | finished k done _ _ _ => exact absurd done failed.not_completes
    | failed _ _ _ left => exact left

/-- A loop that completes has all bytes of the content accepted in order. -/
theorem passes_accepted (sftpSome : sftp ≠ 0) (handleSome : sftpHandle ≠ 0)
    (ready : Ready device (.writing sftp sftpHandle) 0 d) (permitted : Permitted device.fileContent.length results)
    {m : Nat} (done : Completes asyncFails device.fileContent.length results m) :
    ∃ n, (passes device sftp sftpHandle d results n).state.left = some .complete ∧
      Write.accepted device.fileContent (writes (passes device sftp sftpHandle d results n).state.calls) =
        device.fileContent := by
  refine ⟨m + 1, ?_⟩
  cases passes_between sftpSome handleSome ready permitted (m + 1) with
  | waits working _ _ _ =>
    have le := done.le working
    omega
  | failed k failed _ _ => exact absurd done failed.not_completes
  | finished _ _ _ closed left =>
    obtain ⟨total, moved, whole⟩ := closed.moved
    exact ⟨left, by rw [moved.accepted_eq, whole left, List.take_length]⟩

end SFTPUploadDevice

namespace SFTPSaver

open SFTPUploadDevice

/-- The loop of `SaveFile` terminates, throws exactly when the passes of a device take the
write-error branch, and otherwise both have handed over the same bytes. -/
def LoopsAgree (device : SFTPUploadDevice) (sftp sftpHandle : Ptr) (d : Done) (results : Nat → Int) : Prop :=
  ∃ n calls complete,
    writeLoop sftpHandle device.fileContent.length 0 ((List.range n).map results) = some (calls, complete) ∧
    (complete = false ↔ ∃ k, (passes device sftp sftpHandle d results k).state.left = some .writeError) ∧
    (complete = true → ∃ k, (passes device sftp sftpHandle d results k).state.left = some .complete ∧
      Write.accepted device.fileContent (writes (passes device sftp sftpHandle d results k).state.calls) =
        Write.accepted device.fileContent (writes calls))

/-- The first result that is not positive makes both loops give up, or one of them at once
and the other one later. -/
def FailTogether (size : Nat) (results : Nat → Int) : Prop :=
  ∀ m, moved results m < size → results m ≤ 0 → (∀ k < m, 0 < results k) →
    (syncFails (results m) ∧ asyncFails (results m)) ∨
    (¬ syncFails (results m) ∧ Later syncFails size results m) ∨
    (¬ asyncFails (results m) ∧ Later asyncFails size results m)

variable {device : SFTPUploadDevice} {sftp sftpHandle : Ptr} {d : Done} {results : Nat → Int}

/-- Before a result that is not positive neither loop has given up. -/
theorem working_of_positive {fails : Int → Prop} {size m : Nat} (fine : ∀ rc, 0 < rc → ¬ fails rc)
    (more : moved results m < size) (positive : ∀ k < m, 0 < results k) : Working fails size results m := by
  intro k hk
  have le := moved_mono results (Nat.le_of_lt hk)
  exact ⟨by omega, fine _ (positive k hk)⟩

theorem syncFails_positive (rc : Int) (some : 0 < rc) : ¬ syncFails rc := by
  intro failed
  unfold syncFails at failed
  omega

theorem asyncFails_positive (rc : Int) (some : 0 < rc) : ¬ asyncFails rc := by
  intro failed
  have le := failed.1
  omega

theorem zero_of_not_syncFails {rc : Int} (stops : rc ≤ 0) (fine : ¬ syncFails rc) : rc = 0 := by
  unfold syncFails at fine
  omega

theorem eagain_of_not_asyncFails {rc : Int} (stops : rc ≤ 0) (fine : ¬ asyncFails rc) : rc = eagain := by
  by_contra other
  exact fine ⟨stops, other⟩

/-- A result that one loop goes on from makes the other one give up. -/
theorem asyncFails_of_not_syncFails {rc : Int} (stops : rc ≤ 0) (fine : ¬ syncFails rc) : asyncFails rc := by
  have zero := zero_of_not_syncFails stops fine
  simp [asyncFails, zero, eagain]

theorem syncFails_of_not_asyncFails {rc : Int} (stops : rc ≤ 0) (fine : ¬ asyncFails rc) : syncFails rc := by
  have again := eagain_of_not_asyncFails stops fine
  simp [syncFails, again, eagain]

/-- Every result before everything is written is positive, or there is a first one that is not. -/
theorem first_stop (size : Nat) (results : Nat → Int) :
    (∀ n, moved results n < size → 0 < results n) ∨
      ∃ m, moved results m < size ∧ results m ≤ 0 ∧ ∀ k < m, 0 < results k := by
  by_cases stuck : ∃ m, moved results m < size ∧ results m ≤ 0
  · classical
    obtain ⟨more, stops⟩ := Nat.find_spec stuck
    refine .inr ⟨Nat.find stuck, more, stops, fun k hk => ?_⟩
    by_contra nothing
    have le := moved_mono results (Nat.le_of_lt hk)
    exact Nat.find_min stuck hk ⟨by omega, by omega⟩
  · refine .inl fun n more => ?_
    by_contra nothing
    exact stuck ⟨n, more, by omega⟩

/-- The loops end in the same way. -/
theorem FailTogether.ends {size : Nat} (together : FailTogether size results) :
    ((∃ m, Fails syncFails size results m) ∧ ∃ m, Fails asyncFails size results m) ∨
    ((∃ m, Completes syncFails size results m) ∧ ∃ m, Completes asyncFails size results m) := by
  rcases first_stop size results with positive | ⟨m, more, stops, first⟩
  · right
    exact ⟨completes_of_positive fun n more => ⟨syncFails_positive _ (positive n more), positive n more⟩,
      completes_of_positive fun n more => ⟨asyncFails_positive _ (positive n more), positive n more⟩⟩
  · left
    have sync := working_of_positive syncFails_positive more first
    have async := working_of_positive asyncFails_positive more first
    rcases together m more stops first with ⟨here, there⟩ | ⟨fine, later⟩ | ⟨fine, later⟩
    · exact ⟨⟨m, sync, more, here⟩, m, async, more, there⟩
    · have there := asyncFails_of_not_syncFails stops fine
      exact ⟨(fails_later_iff sync more fine).mpr later, m, async, more, there⟩
    · have here := syncFails_of_not_asyncFails stops fine
      exact ⟨⟨m, sync, more, here⟩, (fails_later_iff async more fine).mpr later⟩

theorem failTogether_iff (size : Nat) (results : Nat → Int) :
    FailTogether size results ↔
      ((∃ m, Fails syncFails size results m) ∧ ∃ m, Fails asyncFails size results m) ∨
      ((∃ m, Completes syncFails size results m) ∧ ∃ m, Completes asyncFails size results m) := by
  refine ⟨FailTogether.ends, fun ends m more stops first => ?_⟩
  have sync := working_of_positive syncFails_positive more first
  have async := working_of_positive asyncFails_positive more first
  by_cases here : syncFails (results m)
  · by_cases there : asyncFails (results m)
    · exact .inl ⟨here, there⟩
    · refine .inr (.inr ⟨there, (fails_later_iff async more there).mp ?_⟩)
      rcases ends with ⟨_, failed⟩ | ⟨⟨k, done⟩, _⟩
      · exact failed
      · exact absurd done (Fails.not_completes ⟨sync, more, here⟩)
  · refine .inr (.inl ⟨here, (fails_later_iff sync more here).mp ?_⟩)
    have there : Fails asyncFails size results m := ⟨async, more, asyncFails_of_not_syncFails stops here⟩
    rcases ends with ⟨failed, _⟩ | ⟨_, k, done⟩
    · exact failed
    · exact absurd done there.not_completes

/-- The two write loops agree if and only if a result that is not positive makes both give up. -/
theorem write_loops_agree_iff (sftpSome : sftp ≠ 0) (handleSome : sftpHandle ≠ 0)
    (ready : Ready device (.writing sftp sftpHandle) 0 d) (permitted : Permitted device.fileContent.length results) :
    LoopsAgree device sftp sftpHandle d results ↔ FailTogether device.fileContent.length results := by
  have failing := passes_fail_iff sftpSome handleSome ready permitted
  rw [failTogether_iff]
  constructor
  · rintro ⟨n, calls, complete, gives, throws, same⟩
    cases complete with
    | false =>
      exact .inl ⟨(writeLoop_fails_iff sftpHandle _ results).mp ⟨n, calls, gives⟩, failing.mp (throws.mp rfl)⟩
    | true =>
      refine .inr ⟨(writeLoop_completes_iff sftpHandle _ results).mp ⟨n, calls, gives⟩, ?_⟩
      obtain ⟨k, left, _⟩ := same rfl
      cases passes_between sftpSome handleSome ready permitted k with
      | waits _ _ _ ready =>
        rw [ready.left] at left
        cases left
      | finished m done _ _ _ => exact ⟨m, done⟩
      | failed _ _ _ error =>
        rw [error] at left
        cases left
  · rintro (⟨sync, async⟩ | ⟨sync, m, done⟩)
    · obtain ⟨n, calls, gives⟩ := (writeLoop_fails_iff sftpHandle _ results).mpr sync
      exact ⟨n, calls, false, gives, iff_of_true rfl (failing.mpr async), by simp⟩
    · obtain ⟨n, calls, gives⟩ := (writeLoop_completes_iff sftpHandle _ results).mpr sync
      obtain ⟨k, left, accepted⟩ := passes_accepted sftpSome handleSome ready permitted done
      refine ⟨n, calls, true, gives, iff_of_false (by simp) ?_, fun _ => ⟨k, left, ?_⟩⟩
      · intro error
        obtain ⟨_, failed⟩ := failing.mp error
        exact failed.not_completes done
      · rw [accepted, writeLoop_accepted gives]
        rfl

/-- A device that has opened its file and has four bytes to write. -/
def writing : SFTPUploadDevice := ⟨['h'], "/f".toList, ['u'], ['p'], [], [], [], "abcd".toList, false⟩

def opened : Done :=
  { calls := [.sessionInit, .setBlocking false, .handshake 0, .userauthPassword ['u'] ['p'] 0, .sftpInit 1,
      .sftpOpen 1 "./f".toList 1] }

theorem opened_ready : Ready writing (.writing 1 1) 0 opened := ⟨rfl, rfl, rfl, .start⟩

/-- The server takes one byte, two and one. -/
def inPieces (n : Nat) : Int := if n = 1 then 2 else 1

/-- The server takes two bytes, then it would block, and then the connection is lost. -/
def thenLost (n : Nat) : Int := if n = 0 then 2 else if n = 1 then eagain else -43

/-- Both loops write what is taken in pieces, and both give up when the connection is lost. -/
theorem write_loops_agree_pieces :
    LoopsAgree writing 1 1 opened inPieces ∧ LoopsAgree writing 1 1 opened thenLost := by
  refine ⟨(write_loops_agree_iff (by decide) (by decide) opened_ready ?_).mpr ?_,
    (write_loops_agree_iff (by decide) (by decide) opened_ready ?_).mpr ?_⟩
  · intro n more
    match n with
    | 0 | 1 | 2 => decide
    | n + 3 =>
      have all := moved_mono inPieces (show 3 ≤ n + 3 by omega)
      exact absurd more (Nat.not_lt.mpr all)
  · intro m _ stops _
    unfold inPieces at stops
    split at stops
    next => cases stops
    next => cases stops
  · intro n _
    match n with
    | 0 => decide
    | 1 => decide
    | n + 2 =>
      have lost : thenLost (n + 2) ≤ 0 := by simp [thenLost]
      exact Int.le_trans lost (Int.natCast_nonneg _)
  · intro m _ stops before
    have here : m = 1 := by
      match m with
      | 0 => exact absurd stops (by decide)
      | 1 => rfl
      | m + 2 => exact absurd (before 1 (by omega)) (by decide)
    subst here
    refine .inr (.inr ⟨fun fails => fails.2 rfl, 2, by decide, by decide, ⟨by decide, by decide⟩, ?_⟩)
    omega

/-- A server that accepts nothing for ever keeps one loop going and ends the other one. -/
theorem write_loops_disagree :
    ∃ results : Nat → Int, Permitted writing.fileContent.length results ∧
      (∀ n, writeLoop 1 writing.fileContent.length 0 ((List.range n).map results) = none) ∧
      ¬ LoopsAgree writing 1 1 opened results := by
  have nothing (n : Nat) : moved (fun _ => 0) n = 0 := by
    induction n with
    | zero => rfl
    | succ n ih => simpa [moved] using ih
  have permitted : Permitted writing.fileContent.length fun _ => 0 := fun n _ => Int.natCast_nonneg _
  have never (n : Nat) : writeLoop 1 writing.fileContent.length 0 ((List.range n).map fun _ => 0) = none := by
    rcases writeLoop_cases 1 writing.fileContent.length (fun _ => 0) n with
      ⟨waits, _⟩ | ⟨calls, ⟨_, m, failed⟩ | ⟨_, m, done⟩⟩
    · exact waits
    · exact absurd failed.stops (by simp [syncFails])
    · have whole := done.whole
      rw [nothing] at whole
      exact absurd whole (by decide)
  refine ⟨fun _ => 0, permitted, never, ?_⟩
  rintro ⟨n, calls, complete, gives, _⟩
  rw [never n] at gives
  cases gives

end SFTPSaver

end AsyncIOManager
