import AsyncIOManager.SFTPRelease

namespace AsyncIOManager

open Reactor Streaming

namespace SFTPUploadDevice

/-- A pass of the write loop that starts with `total` bytes written gives up. -/
def failsWriting (device : SFTPUploadDevice) (ssh : Ssh2) (total : Nat) : Bool :=
  let remaining := sizeSub device.fileContent.length total
  let rc := ssh.sftpWrite remaining
  remaining ≠ 0 && rc ≤ 0 && rc ≠ eagain

def failsOpen (device : SFTPUploadDevice) (ssh : Ssh2) : Bool :=
  if ssh.sftpOpen = 0 then ssh.openErrno ≠ eagain else failsWriting device ssh 0

def failsCreate (device : SFTPUploadDevice) (ssh : Ssh2) : Bool :=
  if ssh.sftpInit = 0 then ssh.initErrno ≠ eagain else failsOpen device ssh

def failsAuth (device : SFTPUploadDevice) (ssh : Ssh2) : Bool :=
  if ssh.userauth = 0 then failsCreate device ssh else ssh.userauth ≠ eagain

def failsHandshake (device : SFTPUploadDevice) (ssh : Ssh2) : Bool :=
  if ssh.handshake = 0 then failsAuth device ssh else ssh.handshake ≠ eagain

/-- The handler of a device posts the callback before everything is written. -/
def Continuation.fails (device : SFTPUploadDevice) (c : Continuation) (ec : Ec) (ssh : Ssh2) : Bool :=
  match c, ec with
  | connect _, .success => failsHandshake device ssh
  | handshake, .success => failsHandshake device ssh
  | auth, .success => failsAuth device ssh
  | createSFTP, .success => failsCreate device ssh
  | sftpOpen _, .success => failsOpen device ssh
  | writeBlocks _ _ total, .success => failsWriting device ssh total
  | completion, _ => false
  | _, .error => true

def reportsOpen (device : SFTPUploadDevice) (ssh : Ssh2) : Bool := ssh.sftpOpen ≠ 0 && device.saveLocation

def reportsCreate (device : SFTPUploadDevice) (ssh : Ssh2) : Bool :=
  ssh.sftpInit ≠ 0 && reportsOpen device ssh

def reportsAuth (device : SFTPUploadDevice) (ssh : Ssh2) : Bool :=
  ssh.userauth = 0 && reportsCreate device ssh

def reportsHandshake (device : SFTPUploadDevice) (ssh : Ssh2) : Bool :=
  ssh.handshake = 0 && reportsAuth device ssh

/-- The handler of a device opens the remote file, and so assigns the location. -/
def Continuation.reports (device : SFTPUploadDevice) (c : Continuation) (ec : Ec) (ssh : Ssh2) : Bool :=
  match c, ec with
  | connect _, .success => reportsHandshake device ssh
  | handshake, .success => reportsHandshake device ssh
  | auth, .success => reportsAuth device ssh
  | createSFTP, .success => reportsCreate device ssh
  | sftpOpen _, .success => reportsOpen device ssh
  | _, _ => false

/-- The device has posted its callback without having written everything. -/
def Done.failed (d : Done) : Bool := d.posts ≠ 0 && d.left ≠ some .complete

variable {device : SFTPUploadDevice} {s r : Turn} {ssh : Ssh2}

theorem unfailed_of_unposted {d : Done} (h : d.posts = 0) : d.failed = false := by
  simp [Done.failed, h]

theorem unfailed_of_complete {d : Done} (h : d.left = some .complete) : d.failed = false := by
  simp [Done.failed, h]

theorem startSFTPCleanup_keeps (sftpHandle sftp : Ptr) (s : Turn) :
    (startSFTPCleanup sftpHandle sftp s).state.left = s.state.left ∧
      (startSFTPCleanup sftpHandle sftp s).state.location = s.state.location := by
  simp only [startSFTPCleanup, call, Loop.modify]
  split <;> split <;> exact ⟨rfl, rfl⟩

theorem finish_unfailed (sftpHandle sftp : Ptr) (s : Turn) :
    (doWriteCallback (startSFTPCleanup sftpHandle sftp (leave .complete s))).state.failed = false := by
  have left := (startSFTPCleanup_keeps sftpHandle sftp (leave .complete s)).1
  exact unfailed_of_complete left

theorem startSFTPWriteBlocks_unfailed {sftp sftpHandle : Ptr} {total : Nat} (unposted : s.state.posts = 0)
    (goes : failsWriting device ssh total = false) :
    (startSFTPWriteBlocks device ssh sftp sftpHandle total s).state.failed = false := by
  unfold failsWriting at goes
  unfold startSFTPWriteBlocks
  simp only at goes ⊢
  generalize sizeSub device.fileContent.length total = remaining at goes ⊢
  by_cases none : remaining = 0
  · rw [if_pos none]
    exact finish_unfailed sftpHandle sftp s
  · rw [if_neg none]
    generalize ssh.sftpWrite remaining = rc at goes ⊢
    by_cases some : 0 < rc
    · rw [if_pos some]
      by_cases whole : device.fileContent.length ≤ total + rc.toNat
      · rw [if_pos whole]
        exact finish_unfailed sftpHandle sftp _
      · rw [if_neg whole]
        exact unfailed_of_unposted unposted
    · have again : rc = eagain := by
        have low : rc ≤ 0 := by omega
        simpa [none, low] using goes
      rw [if_neg some, if_pos again]
      exact unfailed_of_unposted unposted

theorem startSFTPOpen_unfailed {sftp : Ptr} (unposted : s.state.posts = 0)
    (goes : failsOpen device ssh = false) : (startSFTPOpen device ssh sftp s).state.failed = false := by
  unfold failsOpen at goes
  unfold startSFTPOpen
  by_cases failed : ssh.sftpOpen = 0
  · simp only [failed, if_true] at goes ⊢
    have again : ssh.openErrno = eagain := by simpa using goes
    rw [if_pos again]
    exact unfailed_of_unposted unposted
  · simp only [failed, if_false] at goes ⊢
    refine startSFTPWriteBlocks_unfailed ?_ goes
    split
    next => exact unposted
    next => exact unposted

theorem startCreateSFTP_unfailed (unposted : s.state.posts = 0) (goes : failsCreate device ssh = false) :
    (startCreateSFTP device ssh s).state.failed = false := by
  unfold failsCreate at goes
  unfold startCreateSFTP
  by_cases failed : ssh.sftpInit = 0
  · simp only [failed, if_true] at goes ⊢
    have again : ssh.initErrno = eagain := by simpa using goes
    rw [if_pos again]
    exact unfailed_of_unposted unposted
  · simp only [failed, if_false] at goes ⊢
    exact startSFTPOpen_unfailed unposted goes

theorem startSFTPAuth_unfailed (unposted : s.state.posts = 0) (goes : failsAuth device ssh = false) :
    (startSFTPAuth device ssh s).state.failed = false := by
  unfold failsAuth at goes
  unfold startSFTPAuth
  by_cases accepted : ssh.userauth = 0
  · simp only [accepted, if_true] at goes ⊢
    exact startCreateSFTP_unfailed unposted goes
  · simp only [accepted, if_false] at goes ⊢
    have again : ssh.userauth = eagain := by simpa using goes
    rw [if_pos again]
    exact unfailed_of_unposted unposted

theorem startSFTPHandshake_unfailed (unposted : s.state.posts = 0) (goes : failsHandshake device ssh = false) :
    (startSFTPHandshake device ssh s).state.failed = false := by
  unfold failsHandshake at goes
  unfold startSFTPHandshake
  by_cases accepted : ssh.handshake = 0
  · simp only [accepted, if_true] at goes ⊢
    exact startSFTPAuth_unfailed unposted goes
  · simp only [accepted, if_false] at goes ⊢
    have again : ssh.handshake = eagain := by simpa using goes
    rw [if_pos again]
    exact unfailed_of_unposted unposted

/-- A handler that does not fail leaves a device that has not failed. -/
theorem run_unfailed {c : Continuation} {ec : Ec} (unposted : s.state.posts = 0)
    (goes : c.fails device ec ssh = false) : (c.run device ec ssh s).state.failed = false := by
  cases c with
  | connect endpoints =>
    cases ec with
    | success => exact startSFTPHandshake_unfailed unposted goes
    | error => cases goes
  | handshake =>
    cases ec with
    | success => exact startSFTPHandshake_unfailed unposted goes
    | error => cases goes
  | auth =>
    cases ec with
    | success => exact startSFTPAuth_unfailed unposted goes
    | error => cases goes
  | createSFTP =>
    cases ec with
    | success => exact startCreateSFTP_unfailed unposted goes
    | error => cases goes
  | sftpOpen sftp =>
    cases ec with
    | success => exact startSFTPOpen_unfailed unposted goes
    | error => cases goes
  | writeBlocks sftp sftpHandle total =>
    cases ec with
    | success => exact startSFTPWriteBlocks_unfailed unposted goes
    | error => cases goes
  | completion =>
    cases ec with
    | success => exact unfailed_of_unposted unposted
    | error => exact unfailed_of_unposted unposted

theorem startSFTPWriteBlocks_location (device : SFTPUploadDevice) (ssh : Ssh2) (sftp sftpHandle : Ptr)
    (total : Nat) (s : Turn) :
    (startSFTPWriteBlocks device ssh sftp sftpHandle total s).state.location = s.state.location := by
  have finished (l : Leave) (s : Turn) :
      (doWriteCallback (startSFTPCleanup sftpHandle sftp (leave l s))).state.location = s.state.location :=
    (startSFTPCleanup_keeps sftpHandle sftp (leave l s)).2
  unfold startSFTPWriteBlocks
  simp only
  split
  next => exact finished .complete s
  next =>
    split
    next =>
      split
      next => exact finished .complete _
      next => rfl
    next =>
      split
      next => rfl
      next => exact finished .writeError _

theorem startSFTPOpen_location {sftp : Ptr} (quiet : reportsOpen device ssh = false) :
    (startSFTPOpen device ssh sftp s).state.location = s.state.location := by
  unfold reportsOpen at quiet
  unfold startSFTPOpen
  by_cases failed : ssh.sftpOpen = 0
  · simp only [failed, if_true]
    split <;> rfl
  · have untold : device.saveLocation = false := by simpa [failed] using quiet
    simp only [failed, if_false, untold, Bool.false_eq_true]
    rw [startSFTPWriteBlocks_location]
    rfl

theorem startCreateSFTP_location (quiet : reportsCreate device ssh = false) :
    (startCreateSFTP device ssh s).state.location = s.state.location := by
  unfold reportsCreate at quiet
  unfold startCreateSFTP
  by_cases failed : ssh.sftpInit = 0
  · simp only [failed, if_true]
    split <;> rfl
  · simp only [failed, if_false]
    rw [startSFTPOpen_location (by simpa [failed] using quiet)]
    rfl

theorem startSFTPAuth_location (quiet : reportsAuth device ssh = false) :
    (startSFTPAuth device ssh s).state.location = s.state.location := by
  unfold reportsAuth at quiet
  unfold startSFTPAuth
  by_cases accepted : ssh.userauth = 0
  · simp only [accepted, if_true]
    rw [startCreateSFTP_location (by simpa [accepted] using quiet)]
    rfl
  · simp only [accepted, if_false]
    split <;> rfl

theorem startSFTPHandshake_location (quiet : reportsHandshake device ssh = false) :
    (startSFTPHandshake device ssh s).state.location = s.state.location := by
  unfold reportsHandshake at quiet
  unfold startSFTPHandshake
  by_cases accepted : ssh.handshake = 0
  · simp only [accepted, if_true]
    rw [startSFTPAuth_location (by simpa [accepted] using quiet)]
    rfl
  · simp only [accepted, if_false]
    split <;> rfl

/-- Only a handler that opens the remote file assigns the location. -/
theorem run_location {c : Continuation} {ec : Ec} (quiet : c.reports device ec ssh = false) :
    (c.run device ec ssh s).state.location = s.state.location := by
  cases c with
  | connect endpoints =>
    cases ec with
    | success => exact startSFTPHandshake_location quiet
    | error => rfl
  | handshake =>
    cases ec with
    | success => exact startSFTPHandshake_location quiet
    | error => rfl
  | auth =>
    cases ec with
    | success => exact startSFTPAuth_location quiet
    | error => rfl
  | createSFTP =>
    cases ec with
    | success => exact startCreateSFTP_location quiet
    | error => rfl
  | sftpOpen sftp =>
    cases ec with
    | success => exact startSFTPOpen_location quiet
    | error => rfl
  | writeBlocks sftp sftpHandle total =>
    cases ec with
    | success => exact startSFTPWriteBlocks_location device ssh sftp sftpHandle total s
    | error => exact (startSFTPCleanup_keeps sftpHandle sftp (leave .waitError s)).2
  | completion =>
    cases ec with
    | success => rfl
    | error => rfl

end SFTPUploadDevice

namespace SFTPSaver

open SFTPUploadDevice

/-- The handler of a device that a step runs. -/
def running (s : Saving) : Label Ec Ssh2 Resolve → Option (SFTPUploadDevice × Continuation × Ec × Ssh2)
  | .run k ssh =>
    match s.pool[k]? with
    | some ⟨.upload i c, some ec⟩ => s.state.uploads[i]?.map fun u => (u.device, c, ec, ssh)
    | _ => none
  | _ => none

/-- A device gives up in this step. A device that resolves no host does so at once. -/
def fails (s : Saving) (l : Label Ec Ssh2 Resolve) : Bool :=
  (running s l).any (fun (device, c, ec, ssh) => c.fails device ec ssh) ||
    match l with
    | .call (.resolved _) => false
    | .call _ => true
    | _ => false

def reports (s : Saving) (l : Label Ec Ssh2 Resolve) : Bool :=
  (running s l).any fun (device, c, ec, ssh) => c.reports device ec ssh

/-- The location is only assigned, and only stays assigned, while no upload has failed. -/
def Truthful (given : Option Str) (s : Saving) (l : Label Ec Ssh2 Resolve) : Prop :=
  s.state.saveLocation ≠ given ∨ reports s l = true →
    (∀ u ∈ s.state.uploads, u.done.failed = false) ∧ fails s l = false

instance (given : Option Str) (s : Saving) (l : Label Ec Ssh2 Resolve) : Decidable (Truthful given s l) :=
  inferInstanceAs (Decidable (_ → _))

variable {s t : Saving} {l : Label Ec Ssh2 Resolve}

theorem running_upload {k i : Nat} {ssh : Ssh2} {c : Continuation} {ec : Ec} {u : Upload}
    (hk : s.pool[k]? = some ⟨.upload i c, some ec⟩) (hu : s.state.uploads[i]? = some u) :
    running s (.run k ssh) = some (u.device, c, ec, ssh) := by
  simp only [running, hk, hu, Option.map_some]

/-- A step in which no device gives up leaves no upload failed. -/
theorem step_unfailed (tracked : Tracked s) (h : ∀ u ∈ s.state.uploads, u.done.failed = false)
    (goes : fails s l = false) (step : machine.step s l = some t) :
    ∀ u ∈ t.state.uploads, u.done.failed = false := by
  obtain ⟨handler, called⟩ := Bool.or_eq_false_iff.mp goes
  refine each_upload tracked h ?_ ?_ step
  · rintro k ssh i c ec u rfl hk waits hu holds _
    rw [running_upload hk hu] at handler
    exact run_unfailed (s := ⟨{ u.done with location := none }, []⟩) (holds.unposted waits) handler
  · rintro resolve device rfl
    cases resolve with
    | resolved endpoints => exact unfailed_of_unposted rfl
    | _ => cases called

theorem uploadDone_frame (m : Save) :
    (uploadDone m).files = m.files ∧ (uploadDone m).saveLocation = m.saveLocation := by
  simp only [uploadDone]
  split <;> exact ⟨rfl, rfl⟩

/-- Only a step that reports changes the location. -/
theorem step_location (step : machine.step s l = some t) :
    t.state.saveLocation = s.state.saveLocation ∨ reports s l = true := by
  rcases Machine.step_cases step with
    ⟨k, e, x, _, _, _, rfl⟩ | ⟨k, ssh, x, e, rest, rfl, hk, hr⟩ | ⟨resolve, rfl, hr⟩
  · exact .inl rfl
  · rcases run_cases hr with ⟨i, c, u, rfl, _, hu, rfl⟩ | ⟨i, rfl, rfl⟩ | ⟨rfl, rfl⟩
    · by_cases told : c.reports u.device e ssh = true
      · right
        rw [reports, running_upload (takeAt_getElem hk) hu]
        exact told
      · left
        have quiet := run_location (s := ⟨{ u.done with location := none }, []⟩) (Bool.eq_false_iff.mpr told)
        change Option.or (c.run u.device e ssh ⟨{ u.done with location := none }, []⟩).state.location
          s.state.saveLocation = s.state.saveLocation
        rw [quiet]
        rfl
    · exact .inl (uploadDone_frame s.state).2
    · exact .inl rfl
  · obtain ⟨device, files, _, rfl⟩ := startUpload_cases hr
    cases resolve <;> exact .inl rfl

/-- The devices of a save are those that the loop has created and those it has not. -/
theorem step_devices (step : machine.step s l = some t) :
    t.state.uploads.map Upload.device ++ t.state.files = s.state.uploads.map Upload.device ++ s.state.files := by
  rcases Machine.step_cases step with
    ⟨k, e, x, _, _, _, rfl⟩ | ⟨k, ssh, x, e, rest, rfl, hk, hr⟩ | ⟨resolve, rfl, hr⟩
  · rfl
  · rcases run_cases hr with ⟨i, c, u, rfl, _, hu, rfl⟩ | ⟨i, rfl, rfl⟩ | ⟨rfl, rfl⟩
    · change s.state.uploads[i]? = some u at hu
      have here : (s.state.uploads.map Upload.device)[i]? = some u.device := by rw [List.getElem?_map, hu]; rfl
      obtain ⟨lt, same⟩ := List.getElem?_eq_some_iff.mp here
      have kept : (s.state.uploads.map Upload.device).set i u.device = s.state.uploads.map Upload.device := by
        rw [← same]
        exact List.set_getElem_self lt
      change (s.state.uploads.set i (u.handled c e ssh)).map Upload.device ++ s.state.files = _
      rw [List.map_set]
      change (s.state.uploads.map Upload.device).set i u.device ++ s.state.files = _
      rw [kept]
    · change (uploadDone s.state).uploads.map _ ++ (uploadDone s.state).files = _
      rw [uploadDone_uploads, (uploadDone_frame s.state).1]
    · rfl
  · obtain ⟨device, files, hf, rfl⟩ := startUpload_cases hr
    change (s.state.uploads ++ [_]).map Upload.device ++ files = _
    rw [hf, List.map_append, List.append_assoc]
    rfl

/-- As long as no upload fails, the location tells that none has. -/
structure Honest (given : Option Str) (s : Saving) : Prop where
  tracked : Tracked s
  unfailed : s.state.saveLocation ≠ given → ∀ u ∈ s.state.uploads, u.done.failed = false

theorem Honest.step {given : Option Str} (h : Honest given s) (good : Truthful given s l)
    (step : machine.step s l = some t) : Honest given t := by
  refine ⟨h.tracked.step step, ?_⟩
  intro changed
  have busy : s.state.saveLocation ≠ given ∨ reports s l = true := by
    rcases step_location step with same | told
    · exact .inl (same ▸ changed)
    · exact .inr told
  obtain ⟨unfailed, goes⟩ := good busy
  exact step_unfailed h.tracked unfailed goes step

theorem Rejected.unreported (h : Rejected s) (l : Label Ec Ssh2 Resolve) : reports s l = false := by
  have idle : running s l = none := by
    unfold running
    split
    next k ssh =>
      split
      next i c ec hk => cases h.entries _ (List.mem_of_getElem? hk)
      next => rfl
    next => rfl
  rw [reports, idle]
  rfl

/-- Every file of the payload has a device, and all its bytes have been accepted. -/
structure Stored (filename : Str) (data : Payload) (given : Option Str) (s : Saving) : Prop where
  sized : data.first.length = data.second.length
  devices : s.state.uploads.map Upload.device = devices (parseSFTPUrl filename).2 data given.isSome
  whole : ∀ u ∈ s.state.uploads,
    Write.accepted u.device.fileContent (writes u.done.calls) = u.device.fileContent

/-- A location that has been reported to a caller whose `handle_write` has run is that of an
upload of all files. -/
theorem location_stored {filename : Str} {data : Payload} {given : Option Str}
    (reach : Reaches machine.step (Truthful given) (saveASync filename (.success (some data)) given) s)
    (changed : s.state.saveLocation ≠ given) (called : 0 < s.state.handleWrites) :
    Stored filename data given s := by
  have location : (saveASync filename (.success (some data)) given).state.saveLocation = given := by
    simp only [saveASync]
    split
    next => rfl
    next => split <;> rfl
  have free := reach.mono (D := Free) fun _ _ _ => trivial
  rcases saveASync_cases filename (.success (some data)) given with ⟨n, ⟨p, same, some, sized, rfl⟩, start⟩ |
    ⟨_, start⟩
  · cases same
    have counted : Counted data.first.length s ∧ Tracked s ∧
        s.state.uploads.map Upload.device ++ s.state.files = devices (parseSFTPUrl filename).2 data given.isSome := by
      refine free.invariant (P := fun s => Counted data.first.length s ∧ Tracked s ∧
        s.state.uploads.map Upload.device ++ s.state.files = devices (parseSFTPUrl filename).2 data given.isSome)
        ?_ ⟨start, tracked_saveASync .., ?_⟩
      · rintro t l u ⟨counted, tracked, all⟩ _ step
        exact ⟨counted.step tracked step, tracked.step step, (step_devices step).trans all⟩
      · simp [saveASync, some, sized]
    obtain ⟨counted, tracked, all⟩ := counted
    have honest : Honest given s := by
      refine reach.invariant (fun _ _ _ h good step => h.step good step) ⟨tracked_saveASync .., ?_⟩
      exact fun moved => absurd location moved
    have once : s.state.handleWrites = 1 := by
      have count := counted.handleWrites
      split at count
      next => exact count
      next => omega
    obtain ⟨idle, files⟩ := counted.done once
    refine ⟨sized, by rw [← all, files, List.append_nil], ?_⟩
    intro u hu
    have unfailed := honest.unfailed changed u hu
    have posts := tracked.posted idle hu
    have complete : u.done.left = .some .complete := by simpa [Done.failed, posts] using unfailed
    obtain ⟨i, hi⟩ := List.mem_iff_getElem?.mp hu
    obtain ⟨c, holds, _⟩ := tracked.uploads i u hi
    obtain ⟨total, moved, _, whole⟩ := holds.moved
    rw [moved.accepted_eq, whole complete, List.take_length]
  · have kept : Rejected s ∧ s.state.saveLocation = given := by
      refine free.invariant (P := fun s => Rejected s ∧ s.state.saveLocation = given) ?_ ⟨start, location⟩
      rintro t l u ⟨rejected, same⟩ _ step
      refine ⟨rejected.step step, ?_⟩
      rcases step_location step with frame | told
      · exact frame.trans same
      · rw [rejected.unreported l] at told
        cases told
    exact absurd kept.2 changed

end SFTPSaver

end AsyncIOManager
