import AsyncIOManager.SFTPIntegrity
import AsyncIOManager.Ledger

namespace AsyncIOManager

open Reactor Resources

/-- What a save obtains from `libssh2`. -/
inductive Ssh2Resource
  | session
  | sftp (p : Ptr)
  | handle (p : Ptr)
deriving DecidableEq, Repr

/-- A null pointer is nothing that is obtained. -/
def Ssh2Call.acquires : Ssh2Call → Option Ssh2Resource
  | sessionInit => some .session
  | sftpInit sftp => if sftp = 0 then none else some (.sftp sftp)
  | sftpOpen _ _ handle => if handle = 0 then none else some (.handle handle)
  | _ => none

def Ssh2Call.releases : Ssh2Call → Option Ssh2Resource
  | sessionFree => some .session
  | sftpShutdown sftp => some (.sftp sftp)
  | sftpCloseHandle handle => some (.handle handle)
  | _ => none

/-- What the calls on a session acquire and release. -/
def sessionLedger : Ledger Ssh2Call Ssh2Resource := ⟨Ssh2Call.acquires, Ssh2Call.releases⟩

/-- The handle of a file that the call has opened. -/
def Ssh2Call.opens : Ssh2Call → Bool
  | sftpOpen _ _ handle => handle ≠ 0
  | _ => false

/-- A call between the creation of a session and its clean-up. -/
def Ssh2Call.working (c : Ssh2Call) : Bool := c.stage ≠ 1 && c.stage < 8

/-- What a session holds in a phase. -/
def Phase.holds : Phase → Ssh2Resource → Bool
  | fresh, _ => false
  | opening sftp, r => r = .session || r = .sftp sftp
  | writing sftp handle, r => r = .session || r = .sftp sftp || r = .handle handle
  | handleClosed sftp, r => r = .session || r = .sftp sftp
  | freed, _ => false
  | exited, _ => false
  | _, r => r = .session

theorem userauth_neutral {c : Ssh2Call} {rc : Int} (h : c.userauth = some rc) :
    c.acquires = none ∧ c.releases = none ∧ c.opens = false := by
  cases c <;> simp_all [Ssh2Call.userauth, Ssh2Call.acquires, Ssh2Call.releases, Ssh2Call.opens]

theorem Ssh2Step.held {p q : Phase} {c : Ssh2Call} (h : Ssh2Step p c q) (r : Ssh2Resource) :
    (if p.holds r then 1 else 0) + (if c.acquires = some r then 1 else 0) =
      (if q.holds r then 1 else 0) + if c.releases = some r then 1 else 0 := by
  cases h with
  | accepted hc => simp [userauth_neutral hc, Phase.holds]
  | userauth hc _ => simp [userauth_neutral hc, Phase.holds]
  | _ => cases r <;> simp_all [Ssh2Call.acquires, Ssh2Call.releases, Phase.holds, eq_comm]

theorem holding_protocol {calls : List Ssh2Call} {p : Phase} (h : exec protocol .fresh calls = some p) :
    sessionLedger.Holding calls fun r => if p.holds r then 1 else 0 := by
  let held (p : Phase) (r : Ssh2Resource) : Nat := if p.holds r then 1 else 0
  have start : ∀ r, held .fresh r = 0 := fun _ => rfl
  exact Ledger.holding_exec start (fun p c q r hc => (protocol_step hc).held r) h

/-- A session has given everything back when it is freed. -/
theorem settled_protocol {calls : List Ssh2Call} {p : Phase} (h : exec protocol .fresh calls = some p) :
    sessionLedger.Settled calls ↔ p = .fresh ∨ p = .freed ∨ p = .exited := by
  rw [(holding_protocol h).settled_iff]
  constructor
  · intro none
    have session := none .session
    cases p <;> simp_all [Phase.holds]
  · rintro (rfl | rfl | rfl) r <;> rfl

/-- A session is created once. -/
theorem created_once {calls : List Ssh2Call} {p : Phase} (h : exec protocol .fresh calls = some p) :
    sessionLedger.acquired calls .session = if p = .fresh then 0 else 1 := by
  refine exec_history
    (I := fun calls p => sessionLedger.acquired calls .session = if p = .fresh then 0 else 1) rfl ?_ h
  intro calls p c q before hc
  rw [Ledger.acquired_append, before, Ledger.acquired_cons, Ledger.acquired_nil]
  have step := protocol_step hc
  cases step with
  | accepted accepted => simp [sessionLedger, userauth_neutral accepted]
  | userauth tried _ => simp [sessionLedger, userauth_neutral tried]
  | _ => simp_all [sessionLedger, Ssh2Call.acquires]

namespace SFTPUploadDevice

/-- A pass of the write loop that starts with `total` bytes written leaves the loop. -/
def endsWriting (device : SFTPUploadDevice) (ssh : Ssh2) (total : Nat) : Bool :=
  let remaining := sizeSub device.fileContent.length total
  let rc := ssh.sftpWrite remaining
  remaining = 0 || (if 0 < rc then device.fileContent.length ≤ total + rc.toNat else rc ≠ eagain)

def endsOpen (device : SFTPUploadDevice) (ssh : Ssh2) : Bool :=
  ssh.sftpOpen ≠ 0 && endsWriting device ssh 0

def endsCreate (device : SFTPUploadDevice) (ssh : Ssh2) : Bool :=
  ssh.sftpInit ≠ 0 && endsOpen device ssh

def endsAuth (device : SFTPUploadDevice) (ssh : Ssh2) : Bool :=
  ssh.userauth = 0 && endsCreate device ssh

def endsHandshake (device : SFTPUploadDevice) (ssh : Ssh2) : Bool :=
  ssh.handshake = 0 && endsAuth device ssh

/-- The handler of a device leaves the write loop, and so cleans up. -/
def Continuation.ends (device : SFTPUploadDevice) (c : Continuation) (ec : Ec) (ssh : Ssh2) : Bool :=
  match c, ec with
  | connect _, .success => endsHandshake device ssh
  | handshake, .success => endsHandshake device ssh
  | auth, .success => endsAuth device ssh
  | createSFTP, .success => endsCreate device ssh
  | sftpOpen _, .success => endsOpen device ssh
  | writeBlocks _ _ total, .success => endsWriting device ssh total
  | writeBlocks _ _ _, .error => true
  | _, _ => false

/-- The calls of a handler work on the session and clean it up when `ends`. A handler that
does not has posted the callback only if it has opened no file. -/
structure Works (ends : Bool) (working : List Ssh2Call) (s r : Turn) : Prop where
  within : ∀ c ∈ working, c.working = true
  closing : ∃ closing, r.state.calls = s.state.calls ++ (working ++ closing) ∧
    if ends then ∃ sftpHandle sftp, closing = cleanup sftpHandle sftp else closing = []
  opened : ends = false → (∃ c ∈ working, c.opens = true) → r.state.posts = s.state.posts

variable {device : SFTPUploadDevice} {ends : Bool} {working : List Ssh2Call} {s r : Turn}

/-- A call made before the others. -/
theorem Works.called {c : Ssh2Call} (h : Works ends working (call c s) r) (works : c.working = true)
    (opened : ends = false → c.opens = true → r.state.posts = s.state.posts) :
    Works ends (c :: working) s r := by
  obtain ⟨closing, calls, how⟩ := h.closing
  refine ⟨?_, ⟨closing, ?_, how⟩, ?_⟩
  · intro d hd
    rcases List.mem_cons.mp hd with rfl | hd
    · exact works
    · exact h.within d hd
  · rw [calls]
    simp [call, Loop.modify]
  · rintro goes ⟨d, hd, opens⟩
    rcases List.mem_cons.mp hd with rfl | hd
    · exact opened goes opens
    · exact h.opened goes ⟨d, hd, opens⟩

theorem Works.plain {c : Ssh2Call} (h : Works ends working (call c s) r) (works : c.working = true)
    (closed : c.opens = false) : Works ends (c :: working) s r := by
  refine h.called works ?_
  rw [closed]
  rintro _ ⟨⟩

theorem works_nothing (same : r.state.calls = s.state.calls) : Works false [] s r :=
  ⟨by simp, ⟨[], by simp [same], rfl⟩, by simp⟩

theorem works_finish {sftpHandle sftp : Ptr} (handleSome : sftpHandle ≠ 0) (sftpSome : sftp ≠ 0)
    (l : Leave) (s : Turn) :
    Works true [] s (doWriteCallback (startSFTPCleanup sftpHandle sftp (leave l s))) := by
  rw [startSFTPCleanup_eq handleSome sftpSome]
  exact ⟨by simp, ⟨cleanup sftpHandle sftp, rfl, sftpHandle, sftp, rfl⟩, by simp⟩

theorem startSFTPWriteBlocks_works {sftp sftpHandle : Ptr} (device : SFTPUploadDevice) (ssh : Ssh2)
    (sftpSome : sftp ≠ 0) (handleSome : sftpHandle ≠ 0) (total : Nat) (s : Turn) :
    ∃ working, Works (endsWriting device ssh total) working s
      (startSFTPWriteBlocks device ssh sftp sftpHandle total s) := by
  unfold startSFTPWriteBlocks endsWriting
  simp only
  generalize sizeSub device.fileContent.length total = remaining
  by_cases none : remaining = 0
  · rw [if_pos none]
    simp only [none, decide_true, Bool.true_or]
    exact ⟨[], works_finish handleSome sftpSome .complete s⟩
  · rw [if_neg none]
    generalize ssh.sftpWrite remaining = rc
    refine ⟨[.sftpWrite sftpHandle total remaining rc], ?_⟩
    by_cases some : 0 < rc
    · by_cases whole : device.fileContent.length ≤ total + rc.toNat
      · simp only [none, some, whole, if_true, decide_true, decide_false, Bool.false_or]
        exact (works_finish handleSome sftpSome .complete _).plain rfl rfl
      · simp only [none, some, whole, if_true, if_false, decide_false, Bool.false_or]
        refine Works.plain ?_ rfl rfl
        exact works_nothing rfl
    · rw [if_neg some, if_neg some]
      by_cases again : rc = eagain
      · rw [if_pos again]
        simp only [none, again, decide_false, Bool.false_or, ne_eq, not_true_eq_false]
        refine Works.plain ?_ rfl rfl
        exact works_nothing rfl
      · rw [if_neg again]
        simp only [none, again, decide_false, decide_true, Bool.false_or, ne_eq, not_false_eq_true]
        exact (works_finish handleSome sftpSome .writeError _).plain rfl rfl

theorem startSFTPWriteBlocks_waits {sftp sftpHandle : Ptr} {ssh : Ssh2} {total : Nat}
    (goes : endsWriting device ssh total = false) (s : Turn) :
    (startSFTPWriteBlocks device ssh sftp sftpHandle total s).state.posts = s.state.posts := by
  unfold endsWriting at goes
  unfold startSFTPWriteBlocks
  simp only [Bool.or_eq_false_iff, decide_eq_false_iff_not] at goes ⊢
  rw [if_neg goes.1]
  by_cases some : 0 < ssh.sftpWrite (sizeSub device.fileContent.length total)
  · simp only [some, if_true, decide_eq_false_iff_not] at goes ⊢
    rw [if_neg goes.2]
    rfl
  · simp only [some, if_false, decide_eq_false_iff_not, ne_eq, not_not] at goes ⊢
    rw [if_pos goes.2]
    rfl

theorem startSFTPOpen_works {sftp : Ptr} (device : SFTPUploadDevice) (ssh : Ssh2)
    (sftpSome : sftp ≠ 0) (s : Turn) :
    ∃ working, Works (endsOpen device ssh) working s (startSFTPOpen device ssh sftp s) := by
  unfold startSFTPOpen endsOpen
  by_cases failed : ssh.sftpOpen = 0
  · simp only [failed, if_true, ne_eq, not_true_eq_false, decide_false, Bool.false_and]
    refine ⟨[.sftpOpen sftp (cStr ('.' :: device.sftpPath)) 0, .lastErrno ssh.openErrno], ?_⟩
    refine Works.plain (Works.plain ?_ rfl rfl) rfl rfl
    split
    next => exact works_nothing rfl
    next => exact works_nothing rfl
  · simp only [failed, if_false, ne_eq, not_false_eq_true, decide_true, Bool.true_and]
    generalize located : (if device.saveLocation = true then _ else _ : Turn) = t
    have same : t.state.calls = (call (.sftpOpen sftp (cStr ('.' :: device.sftpPath)) ssh.sftpOpen) s).state.calls ∧
        t.state.posts = s.state.posts := by
      subst located
      split
      next => exact ⟨rfl, rfl⟩
      next => exact ⟨rfl, rfl⟩
    obtain ⟨working, works⟩ := startSFTPWriteBlocks_works device ssh sftpSome failed 0 t
    have waits (goes : endsWriting device ssh 0 = false) :
        (startSFTPWriteBlocks device ssh sftp ssh.sftpOpen 0 t).state.posts = s.state.posts := by
      rw [startSFTPWriteBlocks_waits goes, same.2]
    refine ⟨.sftpOpen sftp (cStr ('.' :: device.sftpPath)) ssh.sftpOpen :: working, ?_⟩
    refine Works.called ?_ rfl (fun goes _ => waits goes)
    obtain ⟨closing, calls, how⟩ := works.closing
    exact ⟨works.within, ⟨closing, by rw [calls, same.1], how⟩, fun goes _ => waits goes⟩

theorem startCreateSFTP_works (device : SFTPUploadDevice) (ssh : Ssh2) (s : Turn) :
    ∃ working, Works (endsCreate device ssh) working s (startCreateSFTP device ssh s) := by
  unfold startCreateSFTP endsCreate
  by_cases failed : ssh.sftpInit = 0
  · simp only [failed, if_true, ne_eq, not_true_eq_false, decide_false, Bool.false_and]
    refine ⟨[.sftpInit 0, .lastErrno ssh.initErrno], ?_⟩
    refine Works.plain (Works.plain ?_ rfl rfl) rfl rfl
    split
    next => exact works_nothing rfl
    next => exact works_nothing rfl
  · simp only [failed, if_false, ne_eq, not_false_eq_true, decide_true, Bool.true_and]
    obtain ⟨working, works⟩ := startSFTPOpen_works device ssh failed (call (.sftpInit ssh.sftpInit) s)
    exact ⟨_, works.plain rfl rfl⟩

theorem userauth_working (device : SFTPUploadDevice) (rc : Int) :
    (device.userauth rc).working = true ∧ (device.userauth rc).opens = false := by
  unfold userauth
  split
  · exact ⟨rfl, rfl⟩
  · split <;> exact ⟨rfl, rfl⟩

theorem startSFTPAuth_works (device : SFTPUploadDevice) (ssh : Ssh2) (s : Turn) :
    ∃ working, Works (endsAuth device ssh) working s (startSFTPAuth device ssh s) := by
  obtain ⟨works, closed⟩ := userauth_working device ssh.userauth
  unfold startSFTPAuth endsAuth
  by_cases accepted : ssh.userauth = 0
  · simp only [accepted, if_true, decide_true, Bool.true_and]
    obtain ⟨working, created⟩ := startCreateSFTP_works device ssh (call (device.userauth ssh.userauth) s)
    rw [accepted] at created works closed
    exact ⟨_, created.plain works closed⟩
  · simp only [accepted, if_false, decide_false, Bool.false_and]
    refine ⟨[device.userauth ssh.userauth], Works.plain ?_ works closed⟩
    split
    next => exact works_nothing rfl
    next => exact works_nothing rfl

theorem startSFTPHandshake_works (device : SFTPUploadDevice) (ssh : Ssh2) (s : Turn) :
    ∃ working, Works (endsHandshake device ssh) working s (startSFTPHandshake device ssh s) := by
  unfold startSFTPHandshake endsHandshake
  by_cases accepted : ssh.handshake = 0
  · simp only [accepted, if_true, decide_true, Bool.true_and]
    obtain ⟨working, authenticated⟩ := startSFTPAuth_works device ssh (call (.handshake 0) s)
    exact ⟨_, authenticated.plain rfl rfl⟩
  · simp only [accepted, if_false, decide_false, Bool.false_and]
    refine ⟨[.handshake ssh.handshake], Works.plain ?_ rfl rfl⟩
    split
    next => exact works_nothing rfl
    next => exact works_nothing rfl

/-- A handler of a device works on its session, and cleans it up when it leaves the write loop. -/
theorem run_works {c : Continuation} {d : Done} (holds : Holds device c d) (ec : Ec) (ssh : Ssh2)
    (s : Turn) : ∃ working, Works (c.ends device ec ssh) working s (c.run device ec ssh s) := by
  have posted : ∃ working, Works false working s (doWriteCallback s) := ⟨[], works_nothing rfl⟩
  cases c with
  | connect endpoints =>
    cases ec with
    | success =>
      obtain ⟨working, works⟩ := startSFTPHandshake_works device ssh (call (.setBlocking false) s)
      exact ⟨_, works.plain rfl rfl⟩
    | error => exact posted
  | handshake =>
    cases ec with
    | success => exact startSFTPHandshake_works device ssh s
    | error => exact posted
  | auth =>
    cases ec with
    | success => exact startSFTPAuth_works device ssh s
    | error => exact posted
  | createSFTP =>
    cases ec with
    | success => exact startCreateSFTP_works device ssh s
    | error => exact posted
  | sftpOpen sftp =>
    cases ec with
    | success => exact startSFTPOpen_works device ssh holds.1 s
    | error => exact posted
  | writeBlocks sftp sftpHandle total =>
    obtain ⟨sftpSome, handleSome, _⟩ := holds
    cases ec with
    | success => exact startSFTPWriteBlocks_works device ssh sftpSome handleSome total s
    | error => exact ⟨[], works_finish handleSome sftpSome .waitError s⟩
  | completion =>
    cases ec with
    | success => exact ⟨[], works_nothing rfl⟩
    | error => exact ⟨[], works_nothing rfl⟩

/-- A file has been opened on a session that has come to writing or further. -/
theorem opened_iff_stage {calls : List Ssh2Call} {p : Phase} (h : exec protocol .fresh calls = some p) :
    (∃ c ∈ calls, c.opens = true) ↔ 7 ≤ p.stage := by
  refine exec_history (I := fun calls p => (∃ c ∈ calls, c.opens = true) ↔ 7 ≤ p.stage) ?_ ?_ h
  · simp [Phase.stage]
  · intro calls p c q before hc
    have now : 7 ≤ q.stage ↔ 7 ≤ p.stage ∨ c.opens = true := by
      have step := protocol_step hc
      cases step with
      | accepted accepted => simp [userauth_neutral accepted, Phase.stage]
      | userauth tried _ => simp [userauth_neutral tried, Phase.stage]
      | _ => simp_all [Ssh2Call.opens, Phase.stage]
    rw [now, ← before]
    simp only [List.mem_append, List.mem_singleton, or_and_right, exists_or, exists_eq_left]

/-- Only a device in its write loop has opened a file and not cleaned up. -/
theorem Holds.writes {c : Continuation} {d : Done} (h : Holds device c d) (waits : c ≠ .completion)
    (opened : ∃ x ∈ d.calls, x.opens = true) :
    ∃ sftp sftpHandle total, c = .writeBlocks sftp sftpHandle total := by
  have early {p : Phase} {total : Nat} (ready : Ready device p total d) : 7 ≤ p.stage :=
    (opened_iff_stage ready.phase).mp opened
  cases c with
  | connect endpoints => exact absurd (early h) (by decide)
  | handshake => exact absurd (early h) (by decide)
  | auth => exact absurd (early h) (by decide)
  | createSFTP => exact absurd (early h) (by decide)
  | sftpOpen sftp => exact absurd (early h.2) (by simp [Phase.stage])
  | writeBlocks sftp sftpHandle total => exact ⟨sftp, sftpHandle, total, rfl⟩
  | completion => exact absurd rfl waits

theorem Holds.unposted {c : Continuation} {d : Done} (h : Holds device c d) (waits : c ≠ .completion) :
    d.posts = 0 := by
  cases c with
  | connect endpoints => exact Ready.posts h
  | handshake => exact Ready.posts h
  | auth => exact Ready.posts h
  | createSFTP => exact Ready.posts h
  | sftpOpen sftp => exact h.2.posts
  | writeBlocks sftp sftpHandle total => exact h.2.2.posts
  | completion => exact absurd rfl waits

/-- A device that has posted its callback has cleaned up if it had opened its file. -/
structure Careful (d : Done) : Prop where
  created : .sessionInit ∈ d.calls
  cleaned : 0 < d.posts → (∃ c ∈ d.calls, c.opens = true) → .exit ∈ d.calls

end SFTPUploadDevice

namespace SFTPSaver

open SFTPUploadDevice

theorem created_calls (device : SFTPUploadDevice) (resolve : Resolve) :
    (Upload.created device resolve).done.calls = [.sessionInit] := by
  cases resolve with
  | resolved endpoints => rfl
  | _ => rfl

theorem careful_created (device : SFTPUploadDevice) (resolve : Resolve) :
    Careful (Upload.created device resolve).done := by
  have calls := created_calls device resolve
  refine ⟨by simp [calls], ?_⟩
  rw [calls]
  simp [Ssh2Call.opens]

theorem careful_handled {u : Upload} {c : Continuation} (h : Careful u.done)
    (holds : Holds u.device c u.done) (waits : c ≠ .completion) (ec : Ec) (ssh : Ssh2) :
    Careful (u.handled c ec ssh).done := by
  obtain ⟨working, works⟩ := run_works holds ec ssh ⟨{ u.done with location := none }, []⟩
  obtain ⟨closing, calls, how⟩ := works.closing
  change (u.handled c ec ssh).done.calls = u.done.calls ++ (working ++ closing) at calls
  have unposted := holds.unposted waits
  refine ⟨by rw [calls]; exact List.mem_append_left _ h.created, ?_⟩
  intro posted opened
  cases ends : c.ends u.device ec ssh with
  | true =>
    rw [ends, if_pos rfl] at how
    obtain ⟨sftpHandle, sftp, rfl⟩ := how
    rw [calls]
    simp [cleanup]
  | false =>
    rw [ends, if_neg (by simp)] at how
    subst how
    rw [calls, List.append_nil] at opened
    obtain ⟨x, hx, opens⟩ := opened
    have quiet : (u.handled c ec ssh).done.posts = 0 := by
      rcases List.mem_append.mp hx with old | new
      · obtain ⟨sftp, sftpHandle, total, rfl⟩ := holds.writes waits ⟨x, old, opens⟩
        cases ec with
        | success =>
          change (startSFTPWriteBlocks u.device ssh sftp sftpHandle total _).state.posts = 0
          rw [startSFTPWriteBlocks_waits ends]
          exact unposted
        | error => exact absurd ends (by simp [Continuation.ends])
      · rw [ends] at works
        exact (works.opened rfl ⟨x, new, opens⟩).trans unposted
    omega

theorem careful_step {s t : Saving} {l : Label Ec Ssh2 Resolve} (tracked : Tracked s)
    (h : ∀ u ∈ s.state.uploads, Careful u.done) (hs : machine.step s l = some t) :
    ∀ u ∈ t.state.uploads, Careful u.done := by
  refine each_upload tracked h ?_ ?_ hs
  · intro k ssh i c ec u _ _ waits _ holds careful
    exact careful_handled careful holds waits ec ssh
  · intro resolve device _
    exact careful_created device resolve

theorem saveASync_uploads (filename : Str) (data : ResultType) (saveLocation : Option Str) :
    (saveASync filename data saveLocation).state.uploads = [] := by
  unfold saveASync
  split
  · rfl
  · rfl
  · split
    · rfl
    · split <;> rfl

theorem reaches_careful {filename : Str} {data : ResultType} {saveLocation : Option Str} {s : Saving}
    (reach : Reaches machine.step Free (saveASync filename data saveLocation) s) {u : Upload}
    (hu : u ∈ s.state.uploads) : Careful u.done := by
  have both : Tracked s ∧ ∀ u ∈ s.state.uploads, Careful u.done := by
    refine reach.invariant (P := fun s => Tracked s ∧ ∀ u ∈ s.state.uploads, Careful u.done)
      (fun t l v ht _ hstep => ?_) ⟨tracked_saveASync .., ?_⟩
    · exact ⟨ht.1.step hstep, careful_step ht.1 ht.2 hstep⟩
    · simp [saveASync_uploads]
  exact both.2 u hu

/-- An upload that has posted its callback has given everything back, its session once,
exactly when it has opened its file. -/
theorem upload_released_iff {filename : Str} {data : ResultType} {saveLocation : Option Str} {s : Saving}
    (reach : Reaches machine.step Free (saveASync filename data saveLocation) s) {i : Nat} {u : Upload}
    (hu : s.state.uploads[i]? = some u) (posted : 0 < u.done.posts) :
    sessionLedger.Settled u.done.calls ∧ sessionLedger.released u.done.calls .session = 1 ↔
      ∃ c ∈ u.done.calls, c.opens = true := by
  have careful := reaches_careful reach (List.mem_of_getElem? hu)
  obtain ⟨c, holds, _⟩ := (reaches_tracked reach).uploads i u hu
  obtain ⟨p, phase⟩ := holds.phase
  have begun : p ≠ .fresh := by
    intro fresh
    subst fresh
    have stage := (history_protocol phase).stages _ careful.created
    exact absurd stage (by decide)
  rw [opened_iff_stage phase]
  constructor
  · intro released
    rcases (settled_protocol phase).mp released.1 with fresh | rfl | rfl
    · exact absurd fresh begun
    · decide
    · decide
  · intro opened
    have exits := careful.cleaned posted ((opened_iff_stage phase).mpr opened)
    have stage := (history_protocol phase).stages _ exits
    have last : p = .exited := by cases p <;> simp_all [Phase.stage, Ssh2Call.stage]
    have settled := (settled_protocol phase).mpr (.inr (.inr last))
    have once := created_once phase
    rw [if_neg begun, settled .session] at once
    exact ⟨settled, once⟩

end SFTPSaver

end AsyncIOManager
