import AsyncIOManager.Ssh2Session
import AsyncIOManager.Transfer

namespace AsyncIOManager

open Reactor Streaming

namespace SFTPUploadDevice

def writes (calls : List Ssh2Call) : List Write :=
  calls.filterMap fun c =>
    match c with
    | .sftpWrite _ offset len rc => some ⟨offset, len, rc⟩
    | _ => none

/-- A device at work: its session is in the phase `p` and has taken `total` bytes. -/
structure Ready (device : SFTPUploadDevice) (p : Phase) (total : Nat) (d : Done) : Prop where
  posts : d.posts = 0
  left : d.left = none
  phase : exec protocol .fresh d.calls = some p
  moved : Transfer device.fileContent (writes d.calls) total

/-- A device that has posted its callback. -/
structure Closed (device : SFTPUploadDevice) (d : Done) : Prop where
  posts : d.posts = 1
  phase : ∃ p, exec protocol .fresh d.calls = some p
  moved : ∃ total, Transfer device.fileContent (writes d.calls) total ∧
    (d.left = some .complete → total = device.fileContent.length)

/-- What is known of a device that waits for `c`. -/
def Holds (device : SFTPUploadDevice) (c : Continuation) (d : Done) : Prop :=
  match c with
  | .connect _ => Ready device .initialised 0 d
  | .handshake => Ready device .handshaking 0 d
  | .auth => Ready device .authenticating 0 d
  | .createSFTP => Ready device .creating 0 d
  | .sftpOpen sftp => sftp ≠ 0 ∧ Ready device (.opening sftp) 0 d
  | .writeBlocks sftp sftpHandle totalBytesWritten => sftp ≠ 0 ∧ sftpHandle ≠ 0 ∧
      Ready device (.writing sftp sftpHandle) totalBytesWritten d
  | .completion => Closed device d

/-- A handler starts exactly one operation or posts the callback. -/
def Fits (device : SFTPUploadDevice) (s r : Turn) : Prop :=
  ∃ c o, r.pool = s.pool ++ [⟨c, o⟩] ∧ Holds device c r.state

variable {device : SFTPUploadDevice} {p q : Phase} {total : Nat} {s : Turn}

/-- Calls leave the pool as it is. -/
theorem Fits.within {r t : Turn} (h : Fits device t r) (same : t.pool = s.pool) : Fits device s r := by
  obtain ⟨c, o, hp, holds⟩ := h
  exact ⟨c, o, same ▸ hp, holds⟩

theorem writes_append (calls more : List Ssh2Call) : writes (calls ++ more) = writes calls ++ writes more :=
  List.filterMap_append

/-- A call that is not a write leaves the transfer as it is. -/
theorem Ready.called {c : Ssh2Call} (h : Ready device p total s.state) (hc : protocol p c = some q)
    (plain : writes [c] = []) : Ready device q total (call c s).state := by
  have same : writes (s.state.calls ++ [c]) = writes s.state.calls := by
    rw [writes_append, plain, List.append_nil]
  have moved := h.moved
  rw [← same] at moved
  exact ⟨h.posts, h.left, (exec_concat h.phase c).trans hc, moved⟩

theorem Ready.written {sftp handle : Ptr} {n : Nat} {rc : Int}
    (h : Ready device (.writing sftp handle) total s.state) (whole : total + n = device.fileContent.length)
    (bound : rc ≤ n) :
    Ready device (.writing sftp handle) (total + rc.toNat) (call (.sftpWrite handle total n rc) s).state := by
  refine ⟨h.posts, h.left, (exec_concat h.phase _).trans (if_pos rfl), ?_⟩
  change Transfer _ (writes (s.state.calls ++ [.sftpWrite handle total n rc])) _
  rw [writes_append]
  exact h.moved.write ⟨total, n, rc⟩ rfl whole bound

theorem Ready.assigned (h : Ready device p total s.state) (location : Option Str) :
    Ready device p total (s.modify fun d => { d with location }).state :=
  ⟨h.posts, h.left, h.phase, h.moved⟩

theorem Ready.post (h : Ready device p total s.state) : Fits device s (doWriteCallback s) := by
  have moved : ∃ total, Transfer device.fileContent (writes s.state.calls) total ∧
      (s.state.left = some .complete → total = device.fileContent.length) :=
    ⟨total, h.moved, fun left => by rw [h.left] at left; cases left⟩
  exact ⟨.completion, some .success, rfl, by simp [doWriteCallback, h.posts], ⟨p, h.phase⟩, moved⟩

/-- The calls of a clean-up. -/
def cleanup (sftpHandle sftp : Ptr) : List Ssh2Call :=
  [.sftpCloseHandle sftpHandle, .sftpShutdown sftp, .sessionDisconnect, .sessionFree, .exit]

theorem startSFTPCleanup_eq {sftpHandle sftp : Ptr} (handleSome : sftpHandle ≠ 0) (sftpSome : sftp ≠ 0)
    (s : Turn) : startSFTPCleanup sftpHandle sftp s =
      s.modify fun d => { d with calls := d.calls ++ cleanup sftpHandle sftp } := by
  simp [startSFTPCleanup, cleanup, handleSome, sftpSome, call, Loop.modify]

/-- Leaving the write loop cleans up and posts the callback. -/
theorem Ready.finish {sftp handle : Ptr} (h : Ready device (.writing sftp handle) total s.state)
    (sftpSome : sftp ≠ 0) (handleSome : handle ≠ 0) {l : Leave}
    (complete : l = .complete → total = device.fileContent.length) :
    Fits device s (doWriteCallback (startSFTPCleanup handle sftp (leave l s))) := by
  rw [startSFTPCleanup_eq handleSome sftpSome]
  have phase : exec protocol .fresh (s.state.calls ++ cleanup handle sftp) = some .exited := by
    rw [exec_append, h.phase]
    simp [exec, protocol, cleanup]
  have same : writes (s.state.calls ++ cleanup handle sftp) = writes s.state.calls := by
    rw [writes_append]
    exact List.append_nil _
  have moved := h.moved
  rw [← same] at moved
  refine ⟨.completion, some .success, rfl, ?_, ⟨_, phase⟩, total, moved, fun left => ?_⟩
  · simp [doWriteCallback, leave, h.posts]
  · exact complete (Option.some.inj left)

theorem startSFTPWriteBlocks_fits {sftp handle : Ptr} (ssh : Ssh2) (sftpSome : sftp ≠ 0)
    (handleSome : handle ≠ 0) (h : Ready device (.writing sftp handle) total s.state) :
    Fits device s (startSFTPWriteBlocks device ssh sftp handle total s) := by
  have le := h.moved.total_le
  have remaining : sizeSub device.fileContent.length total = device.fileContent.length - total := if_pos le
  unfold startSFTPWriteBlocks
  simp only [remaining]
  by_cases none : device.fileContent.length - total = 0
  · rw [if_pos none]
    exact h.finish sftpSome handleSome fun _ => by omega
  · rw [if_neg none]
    have written := h.written (n := device.fileContent.length - total) (by omega)
      (ssh.sftpWrite_le (device.fileContent.length - total))
    have bound := ssh.sftpWrite_le (device.fileContent.length - total)
    generalize ssh.sftpWrite (device.fileContent.length - total) = rc at written bound ⊢
    by_cases some : 0 < rc
    · rw [if_pos some]
      by_cases whole : device.fileContent.length ≤ total + rc.toNat
      · rw [if_pos whole]
        exact (written.finish sftpSome handleSome fun _ => by omega).within rfl
      · rw [if_neg whole]
        exact ⟨.writeBlocks sftp handle _, Option.none, rfl, sftpSome, handleSome, written⟩
    · have same : total + rc.toNat = total := by omega
      rw [same] at written
      rw [if_neg some]
      by_cases again : rc = eagain
      · rw [if_pos again]
        exact ⟨.writeBlocks sftp handle _, Option.none, rfl, sftpSome, handleSome, written⟩
      · rw [if_neg again]
        exact (written.finish (l := .writeError) sftpSome handleSome (by simp)).within rfl

theorem startSFTPOpen_fits {sftp : Ptr} (ssh : Ssh2) (sftpSome : sftp ≠ 0)
    (h : Ready device (.opening sftp) 0 s.state) : Fits device s (startSFTPOpen device ssh sftp s) := by
  unfold startSFTPOpen
  by_cases failed : ssh.sftpOpen = 0
  · have opened := h.called (c := .sftpOpen sftp (cStr ('.' :: device.sftpPath)) ssh.sftpOpen)
      (q := .opening sftp) (by simp [protocol, failed]) rfl
    have asked := opened.called (c := .lastErrno ssh.openErrno) (q := .opening sftp) rfl rfl
    simp only [if_pos failed]
    by_cases again : ssh.openErrno = eagain
    · rw [if_pos again]
      exact ⟨.sftpOpen sftp, none, rfl, sftpSome, asked⟩
    · rw [if_neg again]
      exact asked.post.within rfl
  · have opened := h.called (c := .sftpOpen sftp (cStr ('.' :: device.sftpPath)) ssh.sftpOpen)
      (q := .writing sftp ssh.sftpOpen) (by simp [protocol, failed]) rfl
    simp only [if_neg failed]
    by_cases told : device.saveLocation = true
    · rw [if_pos told]
      exact (startSFTPWriteBlocks_fits ssh sftpSome failed (opened.assigned _)).within rfl
    · rw [if_neg told]
      exact (startSFTPWriteBlocks_fits ssh sftpSome failed opened).within rfl

theorem startCreateSFTP_fits (ssh : Ssh2) (h : Ready device .creating 0 s.state) :
    Fits device s (startCreateSFTP device ssh s) := by
  unfold startCreateSFTP
  by_cases failed : ssh.sftpInit = 0
  · have created := h.called (c := .sftpInit ssh.sftpInit) (q := .creating) (by simp [protocol, failed]) rfl
    have asked := created.called (c := .lastErrno ssh.initErrno) (q := .creating) rfl rfl
    simp only [if_pos failed]
    by_cases again : ssh.initErrno = eagain
    · rw [if_pos again]
      exact ⟨.createSFTP, none, rfl, asked⟩
    · rw [if_neg again]
      exact asked.post.within rfl
  · have created := h.called (c := .sftpInit ssh.sftpInit) (q := .opening ssh.sftpInit)
      (by simp [protocol, failed]) rfl
    simp only [if_neg failed]
    exact (startSFTPOpen_fits ssh failed created).within rfl

theorem protocol_userauth_rc (device : SFTPUploadDevice) (rc : Int) :
    protocol .authenticating (device.userauth rc) = some (if rc = 0 then .creating else .authenticating) := by
  unfold userauth
  split
  · rfl
  · split <;> rfl

theorem userauth_plain (device : SFTPUploadDevice) (rc : Int) : writes [device.userauth rc] = [] := by
  unfold userauth
  split
  · rfl
  · split <;> rfl

theorem startSFTPAuth_fits (ssh : Ssh2) (h : Ready device .authenticating 0 s.state) :
    Fits device s (startSFTPAuth device ssh s) := by
  have tried := h.called (protocol_userauth_rc device ssh.userauth) (userauth_plain device ssh.userauth)
  unfold startSFTPAuth
  by_cases accepted : ssh.userauth = 0
  · rw [if_pos accepted] at tried
    simp only [if_pos accepted]
    exact (startCreateSFTP_fits ssh tried).within rfl
  · rw [if_neg accepted] at tried
    simp only [if_neg accepted]
    by_cases again : ssh.userauth = eagain
    · rw [if_pos again]
      exact ⟨.auth, none, rfl, tried⟩
    · rw [if_neg again]
      exact tried.post.within rfl

theorem startSFTPHandshake_fits (ssh : Ssh2) (h : Ready device .handshaking 0 s.state) :
    Fits device s (startSFTPHandshake device ssh s) := by
  have tried := h.called (c := .handshake ssh.handshake) rfl rfl
  unfold startSFTPHandshake
  by_cases accepted : ssh.handshake = 0
  · rw [if_pos accepted] at tried
    simp only [if_pos accepted]
    exact (startSFTPAuth_fits ssh tried).within rfl
  · rw [if_neg accepted] at tried
    simp only [if_neg accepted]
    by_cases again : ssh.handshake = eagain
    · rw [if_pos again]
      exact ⟨.handshake, none, rfl, tried⟩
    · rw [if_neg again]
      exact tried.post.within rfl

/-- A device that is created waits for its connection or has posted its callback. -/
theorem startSFTPUpload_fits (device : SFTPUploadDevice) (resolve : Resolve) :
    Fits device ⟨{}, []⟩ (startSFTPUpload device false resolve (call .sessionInit ⟨{}, []⟩)) := by
  have created : Ready device .initialised 0
      ({ calls := [.sessionInit], resolves := [splitHostPort device.sftpHost] } : Done) :=
    ⟨rfl, rfl, rfl, .start⟩
  cases resolve with
  | resolved endpoints => exact ⟨.connect endpoints, none, rfl, created⟩
  | _ => exact (Ready.post (s := ⟨_, []⟩) created).within rfl

/-- A handler of a device does one step of its upload. -/
theorem run_fits {c : Continuation} {d : Done} (holds : Holds device c d) (waits : c ≠ .completion)
    (ec : Ec) (ssh : Ssh2) :
    Fits device ⟨{ d with location := none }, []⟩ (c.run device ec ssh ⟨{ d with location := none }, []⟩) := by
  have cleared {p : Phase} {total : Nat} (h : Ready device p total d) :
      Ready device p total (⟨{ d with location := none }, []⟩ : Turn).state :=
    h.assigned (s := ⟨d, []⟩) none
  cases c with
  | connect endpoints =>
    have ready := cleared holds
    cases ec with
    | success => exact (startSFTPHandshake_fits ssh (ready.called rfl rfl)).within rfl
    | error => exact ready.post
  | handshake =>
    have ready := cleared holds
    cases ec with
    | success => exact startSFTPHandshake_fits ssh ready
    | error => exact ready.post
  | auth =>
    have ready := cleared holds
    cases ec with
    | success => exact startSFTPAuth_fits ssh ready
    | error => exact ready.post
  | createSFTP =>
    have ready := cleared holds
    cases ec with
    | success => exact startCreateSFTP_fits ssh ready
    | error => exact ready.post
  | sftpOpen sftp =>
    have ready := cleared holds.2
    cases ec with
    | success => exact startSFTPOpen_fits ssh holds.1 ready
    | error => exact ready.post
  | writeBlocks sftp sftpHandle totalBytesWritten =>
    obtain ⟨sftpSome, handleSome, ready⟩ := holds
    cases ec with
    | success => exact startSFTPWriteBlocks_fits ssh sftpSome handleSome (cleared ready)
    | error => exact (cleared ready).finish (l := .waitError) sftpSome handleSome (by simp)
  | completion => exact absurd rfl waits

end SFTPUploadDevice

end AsyncIOManager
