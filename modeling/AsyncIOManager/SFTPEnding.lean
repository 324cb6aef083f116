import AsyncIOManager.Rank
import AsyncIOManager.SFTPLocation
import AsyncIOManager.SFTPWriteLoops

namespace AsyncIOManager

open Reactor

/-- The call has been answered with `LIBSSH2_ERROR_EAGAIN`. -/
def Ssh2Call.again : Ssh2Call → Bool
  | handshake rc => rc = eagain
  | userauthPublickey _ _ _ rc => rc = eagain
  | userauthPassword _ _ rc => rc = eagain
  | lastErrno rc => rc = eagain
  | sftpWrite _ _ _ rc => rc = eagain
  | _ => false

namespace SFTPUploadDevice

def Done.retries (d : Done) : Nat := d.calls.countP Ssh2Call.again

/-- How much of its content a device has written when it waits for `c`. -/
def Continuation.total : Continuation → Nat
  | writeBlocks _ _ totalBytesWritten => totalBytesWritten
  | _ => 0

/-- How many steps a handler of a device with `size` bytes can lead to, itself apart. -/
def Continuation.steps (size : Nat) : Continuation → Nat
  | completion => 0
  | c => 2 * (size - c.total) + 1

def weight (size : Nat) (x : Entry Continuation Ec) : Nat :=
  x.handler.steps size + if x.outcome.isSome then 1 else 2

theorem steps_le (size : Nat) (c : Continuation) : c.steps size ≤ 2 * size + 1 := by
  cases c with
  | completion => exact Nat.zero_le _
  | _ =>
    simp only [Continuation.steps]
    omega

/-- A handler starts one operation or posts the callback, and pays for it out of `budget` and
what its calls were answered with. -/
def Pays (size budget : Nat) (s r : Turn) : Prop :=
  ∃ c o, r.pool = s.pool ++ [⟨c, o⟩] ∧ (c = .completion → o ≠ none) ∧
    weight size ⟨c, o⟩ + 2 * s.state.retries ≤ budget + 2 * r.state.retries

variable {size budget : Nat} {device : SFTPUploadDevice} {s r t : Turn}

theorem retries_call (c : Ssh2Call) (s : Turn) :
    (call c s).state.retries = s.state.retries + if c.again then 1 else 0 := by
  change (s.state.calls ++ [c]).countP _ = _
  rw [List.countP_append, List.countP_singleton]
  rfl

theorem Pays.within (h : Pays size budget t r) (same : t.pool = s.pool)
    (more : s.state.retries ≤ t.state.retries) : Pays size budget s r := by
  obtain ⟨c, o, pool, posted, enough⟩ := h
  refine ⟨c, o, by rw [pool, same], posted, ?_⟩
  omega

theorem Pays.called {c : Ssh2Call} (h : Pays size budget (call c s) r) : Pays size budget s r := by
  refine h.within rfl ?_
  rw [retries_call]
  omega

theorem pays_post (s : Turn) : Pays size (budget + 1) s (doWriteCallback s) := by
  refine ⟨.completion, some .success, rfl, by simp, ?_⟩
  have same : (doWriteCallback s).state.retries = s.state.retries := rfl
  rw [same]
  exact Nat.add_le_add_right (Nat.le_add_left 1 budget) _

/-- To wait for an answer again is paid for by the answer. -/
theorem pays_again {c : Ssh2Call} {x : Continuation} (again : c.again = true) (waits : x ≠ .completion)
    (enough : x.steps size ≤ budget) (s : Turn) : Pays size budget s ((call c s).start x) := by
  refine ⟨x, none, rfl, fun same => absurd same waits, ?_⟩
  have one : ((call c s).start x).state.retries = s.state.retries + 1 := by
    rw [Loop.start_state, retries_call, if_pos again]
  have running : weight size ⟨x, none⟩ = x.steps size + 2 := rfl
  rw [one, running]
  omega

theorem startSFTPCleanup_retries (sftpHandle sftp : Ptr) (s : Turn) :
    (startSFTPCleanup sftpHandle sftp s).state.retries = s.state.retries := by
  have plain {c : Ssh2Call} (never : c.again = false) (s : Turn) :
      (call c s).state.retries = s.state.retries := by
    rw [retries_call, never]
    rfl
  unfold startSFTPCleanup
  rw [plain rfl, plain rfl, plain rfl]
  by_cases handleSome : sftpHandle ≠ 0
  · rw [if_pos handleSome]
    by_cases sftpSome : sftp ≠ 0
    · rw [if_pos sftpSome, plain rfl, plain rfl]
    · rw [if_neg sftpSome, plain rfl]
  · rw [if_neg handleSome]
    by_cases sftpSome : sftp ≠ 0
    · rw [if_pos sftpSome, plain rfl]
    · rw [if_neg sftpSome]

theorem pays_cleanup (sftpHandle sftp : Ptr) (l : Leave) (s : Turn) :
    Pays size (budget + 1) s (doWriteCallback (startSFTPCleanup sftpHandle sftp (leave l s))) := by
  refine (pays_post _).within (startSFTPCleanup_pool ..) ?_
  rw [startSFTPCleanup_retries]
  exact Nat.le_refl _

theorem startSFTPWriteBlocks_pays (ssh : Ssh2) (sftp sftpHandle : Ptr) (total : Nat) (s : Turn) :
    Pays device.fileContent.length (2 * (device.fileContent.length - total) + 1) s
      (startSFTPWriteBlocks device ssh sftp sftpHandle total s) := by
  unfold startSFTPWriteBlocks
  generalize device.fileContent.length = size
  by_cases whole : sizeSub size total = 0
  · simp only [if_pos whole]
    exact pays_cleanup sftpHandle sftp .complete s
  · simp only [if_neg whole]
    generalize ssh.sftpWrite (sizeSub size total) = rc
    by_cases taken : 0 < rc
    · rw [if_pos taken]
      by_cases last : size ≤ total + rc.toNat
      · rw [if_pos last]
        exact (pays_cleanup sftpHandle sftp .complete _).called
      · rw [if_neg last]
        refine Pays.called (c := .sftpWrite sftpHandle total (sizeSub size total) rc) ?_
        refine ⟨_, none, rfl, by simp, ?_⟩
        rw [Loop.start_state]
        change 2 * (size - (total + rc.toNat)) + 1 + 2 + _ ≤ _
        omega
    · rw [if_neg taken]
      by_cases again : rc = eagain
      · rw [if_pos again]
        refine pays_again ?_ (by simp) (Nat.le_refl _) s
        simp [Ssh2Call.again, again]
      · rw [if_neg again]
        exact (pays_cleanup sftpHandle sftp .writeError _).called

theorem startSFTPOpen_pays (ssh : Ssh2) (sftp : Ptr) (s : Turn) :
    Pays device.fileContent.length (2 * device.fileContent.length + 1) s (startSFTPOpen device ssh sftp s) := by
  unfold startSFTPOpen
  refine Pays.called (c := .sftpOpen sftp (cStr ('.' :: device.sftpPath)) ssh.sftpOpen) ?_
  by_cases failed : ssh.sftpOpen = 0
  · simp only [if_pos failed]
    by_cases again : ssh.openErrno = eagain
    · rw [if_pos again]
      exact pays_again (by simp [Ssh2Call.again, again]) (by simp) (steps_le _ _) _
    · rw [if_neg again]
      exact (pays_post _).called
  · simp only [if_neg failed]
    by_cases told : device.saveLocation = true
    · rw [if_pos told]
      exact (startSFTPWriteBlocks_pays ssh sftp ssh.sftpOpen 0 _).within rfl (Nat.le_refl _)
    · rw [if_neg told]
      exact startSFTPWriteBlocks_pays ssh sftp ssh.sftpOpen 0 _

theorem startCreateSFTP_pays (ssh : Ssh2) (s : Turn) :
    Pays device.fileContent.length (2 * device.fileContent.length + 1) s (startCreateSFTP device ssh s) := by
  unfold startCreateSFTP
  refine Pays.called (c := .sftpInit ssh.sftpInit) ?_
  by_cases failed : ssh.sftpInit = 0
  · simp only [if_pos failed]
    by_cases again : ssh.initErrno = eagain
    · rw [if_pos again]
      exact pays_again (by simp [Ssh2Call.again, again]) (by simp) (steps_le _ _) _
    · rw [if_neg again]
      exact (pays_post _).called
  · simp only [if_neg failed]
    exact startSFTPOpen_pays ssh ssh.sftpInit _

theorem again_userauth (device : SFTPUploadDevice) (rc : Int) :
    (device.userauth rc).again = decide (rc = eagain) := by
  unfold userauth
  split
  · rfl
  · split <;> rfl

theorem startSFTPAuth_pays (ssh : Ssh2) (s : Turn) :
    Pays device.fileContent.length (2 * device.fileContent.length + 1) s (startSFTPAuth device ssh s) := by
  unfold startSFTPAuth
  by_cases accepted : ssh.userauth = 0
  · simp only [if_pos accepted]
    exact (startCreateSFTP_pays ssh _).called
  · simp only [if_neg accepted]
    by_cases again : ssh.userauth = eagain
    · rw [if_pos again]
      exact pays_again (by simp [again_userauth, again]) (by simp) (steps_le _ _) s
    · rw [if_neg again]
      exact (pays_post _).called

theorem startSFTPHandshake_pays (ssh : Ssh2) (s : Turn) :
    Pays device.fileContent.length (2 * device.fileContent.length + 1) s (startSFTPHandshake device ssh s) := by
  unfold startSFTPHandshake
  by_cases accepted : ssh.handshake = 0
  · simp only [if_pos accepted]
    exact (startSFTPAuth_pays ssh _).called
  · simp only [if_neg accepted]
    by_cases again : ssh.handshake = eagain
    · rw [if_pos again]
      exact pays_again (by simp [Ssh2Call.again, again]) (by simp) (steps_le _ _) s
    · rw [if_neg again]
      exact (pays_post _).called

/-- A handler of a device leads to less than it is counted with, but for the answers to try again. -/
theorem run_pays (device : SFTPUploadDevice) {c : Continuation} (waits : c ≠ .completion) (ec : Ec) (ssh : Ssh2) (s : Turn) :
    Pays device.fileContent.length (c.steps device.fileContent.length) s (c.run device ec ssh s) := by
  cases c with
  | connect endpoints =>
    cases ec with
    | success => exact (startSFTPHandshake_pays ssh _).called
    | error => exact pays_post s
  | handshake =>
    cases ec with
    | success => exact startSFTPHandshake_pays ssh s
    | error => exact pays_post s
  | auth =>
    cases ec with
    | success => exact startSFTPAuth_pays ssh s
    | error => exact pays_post s
  | createSFTP =>
    cases ec with
    | success => exact startCreateSFTP_pays ssh s
    | error => exact pays_post s
  | sftpOpen sftp =>
    cases ec with
    | success => exact startSFTPOpen_pays ssh sftp s
    | error => exact pays_post s
  | writeBlocks sftp sftpHandle total =>
    cases ec with
    | success => exact startSFTPWriteBlocks_pays ssh sftp sftpHandle total s
    | error => exact pays_cleanup sftpHandle sftp .waitError s
  | completion => exact absurd rfl waits

theorem startSFTPUpload_pays (device : SFTPUploadDevice) (resolve : Resolve) :
    Pays device.fileContent.length (2 * device.fileContent.length + 3) ⟨{}, []⟩
      (startSFTPUpload device false resolve (call .sessionInit ⟨{}, []⟩)) := by
  cases resolve with
  | resolved endpoints => exact ⟨.connect endpoints, none, rfl, by simp, Nat.le_refl _⟩
  | _ => exact ⟨.completion, some .success, rfl, by simp, Nat.le_add_left 1 _⟩

end SFTPUploadDevice

namespace SFTPSaver

open SFTPUploadDevice

/-- How many answers to try again the devices of a save have had. -/
def retries (s : Saving) : Nat := (s.state.uploads.map fun u => u.done.retries).sum

/-- The bytes that the device `i` of `plan` has to write. -/
def sizeOf (plan : List SFTPUploadDevice) (i : Nat) : Nat :=
  (plan[i]?.map fun device => device.fileContent.length).getD 0

def entryWeight (plan : List SFTPUploadDevice) : Entry Handler Ec → Nat
  | ⟨.upload i c, o⟩ => SFTPUploadDevice.weight (sizeOf plan i) ⟨c, o⟩
  | ⟨.handleWrite, o⟩ => if o.isSome then 1 else 2

/-- How many steps a save can still lead to when no call has to be tried again. -/
def rank (plan : List SFTPUploadDevice) (s : Saving) : Nat :=
  s.weight (entryWeight plan) + (s.state.files.map fun device => 2 * device.fileContent.length + 4).sum

/-- The devices of a save, those that the loop has created first. -/
def plan (s : Saving) : List SFTPUploadDevice := s.state.uploads.map Upload.device ++ s.state.files

theorem sizeOf_upload {s : Saving} {i : Nat} {u : Upload} (hu : s.state.uploads[i]? = some u) :
    sizeOf (plan s) i = u.device.fileContent.length := by
  have lt := (List.getElem?_eq_some_iff.mp hu).1
  have here : (plan s)[i]? = some u.device := by
    rw [plan, List.getElem?_append_left (by simpa using lt), List.getElem?_map, hu]
    rfl
  rw [sizeOf, here]
  rfl

theorem sizeOf_next {s : Saving} {device : SFTPUploadDevice} {files : List SFTPUploadDevice}
    (hf : s.state.files = device :: files) :
    sizeOf (plan s) s.state.uploads.length = device.fileContent.length := by
  have here : (plan s)[s.state.uploads.length]? = some device := by
    rw [plan, List.getElem?_append_right (by simp), hf]
    simp
  rw [sizeOf, here]
  rfl

/-- A callback that has been posted is never waited for. -/
def Posted (s : Saving) : Prop :=
  ∀ x ∈ s.pool, (∃ i, x.handler = .upload i .completion) ∨ x.handler = .handleWrite → x.outcome ≠ none

section Step

variable {s t : Saving} {i budget : Nat} {l : Label Ec Ssh2 Resolve} {all : List SFTPUploadDevice}

/-- What a handler of a device leads to is paid for out of `budget`. -/
theorem settle_pays {b r : Turn} {uploads : List Upload} (pays : Pays (sizeOf all i) budget b r)
    (blank : b.pool = []) (gain : (uploads.map fun u => u.done.retries).sum + b.state.retries =
      retries s + r.state.retries) : rank all (settle i uploads r s) + 2 * retries s ≤
        rank all s + budget + 2 * retries (settle i uploads r s) := by
  obtain ⟨c, o, pool, _, enough⟩ := pays
  have weight : (settle i uploads r s).weight (entryWeight all) =
      s.weight (entryWeight all) + SFTPUploadDevice.weight (sizeOf all i) ⟨c, o⟩ := by
    simp [Loop.weight, settle, pool, blank, entryWeight]
  have files : (settle i uploads r s).state.files = s.state.files := rfl
  have total : retries (settle i uploads r s) = (uploads.map fun u => u.done.retries).sum := rfl
  rw [rank, rank, weight, files, total]
  omega

theorem Posted.settle {b r : Turn} {size : Nat} {uploads : List Upload} (hs : Posted s)
    (pays : Pays size budget b r) (blank : b.pool = []) : Posted (settle i uploads r s) := by
  obtain ⟨c, o, pool, posted, _⟩ := pays
  intro x hx own
  rcases List.mem_append.mp hx with old | new
  · exact hs x old own
  · rw [pool, blank] at new
    obtain rfl := List.mem_singleton.mp new
    obtain ⟨j, same⟩ | same := own
    · obtain ⟨-, rfl⟩ := Handler.upload.inj same
      exact posted rfl
    · cases same

theorem Posted.take {k : Nat} {x : Entry Handler Ec} {rest : List (Entry Handler Ec)} (hs : Posted s)
    (hk : takeAt s.pool k = some (x, rest)) : Posted { s with pool := rest } :=
  fun y hy own => hs y (takeAt_rest_mem hk hy) own

theorem Posted.step (hs : Posted s) (h : machine.step s l = some t) : Posted t := by
  rcases Machine.step_cases h with
    ⟨k, e, x, _, hk, _, rfl⟩ | ⟨k, ssh, x, e, rest, _, hk, hr⟩ | ⟨resolve, _, hr⟩
  · intro y hy own
    rcases List.mem_or_eq_of_mem_set hy with old | rfl
    · exact hs y old own
    · simp
  · have rest := hs.take hk
    rcases run_cases hr with ⟨i, c, u, rfl, waits, _, rfl⟩ | ⟨i, rfl, rfl⟩ | ⟨rfl, rfl⟩
    · exact rest.settle (run_pays _ waits e ssh _) rfl
    · exact rest
    · exact rest
  · obtain ⟨device, files, _, rfl⟩ := startUpload_cases hr
    exact Posted.settle (s := s.modify fun m => { m with files }) hs (startSFTPUpload_pays device resolve) rfl

theorem plan_step (h : machine.step s l = some t) : plan t = plan s := step_devices h

/-- Each step is paid for by the rank, or by two for an answer to try again. -/
theorem step_pays (h : machine.step s l = some t) :
    rank (plan s) t + 2 * retries s < rank (plan s) s + 2 * retries t := by
  rcases Machine.step_cases h with
    ⟨k, e, x, _, hk, _, rfl⟩ | ⟨k, ssh, x, e, rest, _, hk, hr⟩ | ⟨resolve, _, hr⟩
  · have sum := sum_map_set (w := entryWeight (plan s)) (y := ⟨x, some e⟩) hk
    have lighter : entryWeight (plan s) ⟨x, some e⟩ + 1 = entryWeight (plan s) ⟨x, none⟩ := by
      cases x with
      | upload i c => rfl
      | handleWrite => rfl
    simp only [rank, Loop.weight, retries]
    omega
  · have taken := weight_takeAt (w := entryWeight (plan s)) hk
    rcases run_cases hr with ⟨i, c, u, rfl, waits, hu, rfl⟩ | ⟨i, rfl, rfl⟩ | ⟨rfl, rfl⟩
    · change s.state.uploads[i]? = some u at hu
      have pays := run_pays u.device waits e ssh ⟨{ u.done with location := none }, []⟩
      rw [← sizeOf_upload hu] at pays
      have gain := sum_map_set (w := fun u : Upload => u.done.retries) (y := u.handled c e ssh) hu
      have paid := settle_pays (s := { s with pool := rest }) pays rfl gain
      have own : entryWeight (plan s) ⟨.upload i c, some e⟩ = c.steps (sizeOf (plan s) i) + 1 := rfl
      have less : rank (plan s) { s with pool := rest } + c.steps (sizeOf (plan s) i) < rank (plan s) s := by
        simp only [rank, Loop.weight]
        omega
      exact Nat.lt_of_le_of_lt paid (Nat.add_lt_add_right less _)
    · have own : entryWeight (plan s) ⟨.upload i .completion, some e⟩ = 1 := rfl
      have files : (uploadDone s.state).files = s.state.files := (uploadDone_frame s.state).1
      simp only [rank, retries, Loop.weight, Loop.modify_pool, Loop.modify_state, uploadDone_uploads, files]
      omega
    · have own : entryWeight (plan s) ⟨.handleWrite, some e⟩ = 1 := rfl
      simp only [rank, retries, Loop.weight, Loop.modify_pool, Loop.modify_state, SFTPSaver.handleWrite]
      omega
  · obtain ⟨device, files, hf, rfl⟩ := startUpload_cases hr
    have pays := startSFTPUpload_pays device resolve
    rw [← sizeOf_next hf] at pays
    have gain : ((s.state.uploads ++ [Upload.created device resolve]).map fun u => u.done.retries).sum + 0 =
        retries s + (Upload.created device resolve).done.retries := by
      simp [retries]
    have paid := settle_pays (s := s.modify fun m => { m with files }) pays rfl gain
    have less : rank (plan s) (s.modify fun m => { m with files }) +
        (2 * sizeOf (plan s) s.state.uploads.length + 3) < rank (plan s) s := by
      rw [sizeOf_next hf]
      simp only [rank, Loop.weight_modify, Loop.modify_state, hf, List.map_cons, List.sum_cons]
      omega
    exact Nat.lt_of_le_of_lt paid (Nat.add_lt_add_right less _)

/-- What is pending can go on, whatever the server answers. -/
theorem goes_on (tracked : Tracked s) (posted : Posted s) (pending : s.pool ≠ []) (ssh : Ssh2) :
    ∃ k t, machine.step s (.run k ssh) = some t ∨ machine.step s (.finish k .error) = some t := by
  obtain ⟨⟨x, o⟩, hx⟩ := List.exists_mem_of_ne_nil _ pending
  obtain ⟨k, rest, hk⟩ := takeAt_of_mem hx
  cases o with
  | some e =>
    have run : machine.step s (.run k ssh) = x.run e ssh { s with pool := rest } := by
      simp only [Machine.step, hk]
      rfl
    cases x with
    | handleWrite => exact ⟨k, _, .inl run⟩
    | upload i c =>
      obtain ⟨u, hu, _⟩ := tracked.take hk
      cases c with
      | completion => exact ⟨k, _, .inl run⟩
      | _ =>
        simp only [Handler.run, hu, Option.map_some] at run
        exact ⟨k, _, .inl run⟩
  | none =>
    have finish : machine.completes x .error = true := by
      cases x with
      | handleWrite => exact absurd rfl (posted _ hx (.inr rfl))
      | upload i c =>
        cases c with
        | completion => exact absurd rfl (posted _ hx (.inl ⟨i, rfl⟩))
        | connect endpoints => exact Bool.or_true _
        | _ => rfl
    refine ⟨k, { s with pool := s.pool.set k ⟨x, some .error⟩ }, .inr ?_⟩
    simp only [Machine.step, takeAt_getElem hk, finish, if_true]

/-- A save that cannot go on has nothing pending and no file left. -/
theorem stuck_idle (tracked : Tracked s) (posted : Posted s) (stuck : ∀ l, machine.step s l = none) :
    s.pool = [] ∧ s.state.files = [] := by
  constructor
  · by_contra pending
    obtain ⟨k, t, run | finish⟩ := goes_on tracked posted pending {}
    · rw [stuck] at run
      cases run
    · rw [stuck] at finish
      cases finish
  · cases hf : s.state.files with
    | nil => rfl
    | cons device files =>
      have unable := stuck (.call .systemError)
      simp [Machine.step, machine, startUpload, hf] at unable

end Step

/-- The contents of the files of a payload. -/
def contents : ResultType → List Str
  | .success (some data) => data.second
  | _ => []

variable {filename : Str} {data : ResultType} {saveLocation : Option Str}

/-- A save that has a device to create for each file. -/
def begun (filename : Str) (p : Payload) (saveLocation : Option Str) : Saving where
  state := {
    files := devices (parseSFTPUrl filename).2 p saveLocation.isSome
    remainingWrites := p.first.length
    saveLocation }
  pool := []

/-- A save is rejected, or begins with all its files. -/
theorem saveASync_starts {P : Saving → Prop} (reject : P (Loop.post ⟨{ saveLocation }, []⟩ .handleWrite .success))
    (accept : ∀ p, data = .success (some p) → p.first.length = p.second.length → P (begun filename p saveLocation)) :
    P (saveASync filename data saveLocation) := by
  cases data with
  | failure e => exact reject
  | success data =>
    cases data with
    | none => exact reject
    | some p =>
      unfold saveASync
      by_cases absent : p.first = []
      · simp only [if_pos absent]
        exact reject
      · by_cases sized : p.first.length ≠ p.second.length
        · simp only [if_neg absent, if_pos sized]
          exact reject
        · simp only [if_neg absent, if_neg sized]
          exact accept p rfl (not_not.mp sized)

theorem sizes_devices (o : SFTPUrl) {p : Payload} (sized : p.first.length = p.second.length) (told : Bool) :
    (devices o p told).map (fun device => 2 * device.fileContent.length + 4) =
      p.second.map fun content => 2 * content.length + 4 := by
  have bytes : (devices o p told).map (fun device => 2 * device.fileContent.length + 4) =
      ((p.first.zip p.second).map Prod.snd).map fun content => 2 * content.length + 4 := by
    simp [devices, Function.comp_def]
  rw [bytes, List.map_snd_zip (Nat.le_of_eq sized.symm)]

theorem rank_saveASync (filename : Str) (data : ResultType) (saveLocation : Option Str) :
    rank (plan (saveASync filename data saveLocation)) (saveASync filename data saveLocation) ≤
      ((contents data).map fun content => 2 * content.length + 4).sum + 1 := by
  refine saveASync_starts (P := fun s => rank (plan s) s ≤ _) ?_ ?_
  · exact Nat.le_add_left 1 _
  · intro p same sized
    subst same
    simp [rank, Loop.weight, begun, sizes_devices _ sized, contents]

theorem posted_saveASync (filename : Str) (data : ResultType) (saveLocation : Option Str) :
    Posted (saveASync filename data saveLocation) := by
  refine saveASync_starts ?_ ?_
  · intro x hx _
    obtain rfl := List.mem_singleton.mp hx
    simp
  · intro p _ _ x hx
    cases hx

/-- The server has not yet taken part in the handshake of the first device. -/
structure Stalled (s : Saving) : Prop where
  pool : s.pool = [⟨.upload 0 .handshake, none⟩]
  uploads : s.state.uploads.length = 1
  handleWrites : s.state.handleWrites = 0

def unready : Ssh2 := { takesAll with handshake := eagain }

theorem Stalled.again {s : Saving} (hs : Stalled s) :
    ∃ t, exec machine.step s [.finish 0 .success, .run 0 unready] = some t ∧ Stalled t := by
  obtain ⟨u, only⟩ := List.length_eq_one_iff.mp hs.uploads
  let turn := startSFTPHandshake u.device unready ⟨{ u.done with location := none }, []⟩
  let t := settle 0 [⟨u.device, turn.state⟩] turn { s with pool := [] }
  have finished : machine.step s (.finish 0 .success) =
      some { s with pool := [⟨.upload 0 .handshake, some .success⟩] } := by
    simp [Machine.step, hs.pool, machine, Continuation.completes]
  have ran : machine.step { s with pool := [⟨.upload 0 .handshake, some .success⟩] } (.run 0 unready) = some t := by
    simp [Machine.step, takeAt, machine, Handler.run, only, Continuation.run, t, turn]
  refine ⟨t, by simp only [exec, finished, ran, Option.bind_some], rfl, rfl, hs.handleWrites⟩

/-- No timer bounds a handshake: a server that never gets ready holds up the save. -/
theorem Stalled.on {s : Saving} (hs : Stalled s) (k : Nat) :
    ∃ ls t, exec machine.step s ls = some t ∧ k ≤ ls.length ∧ Stalled t := by
  induction k with
  | zero => exact ⟨[], s, rfl, Nat.le_refl _, hs⟩
  | succ k ih =>
    obtain ⟨ls, t, run, long, stalled⟩ := ih
    obtain ⟨u, once, still⟩ := stalled.again
    refine ⟨ls ++ [.finish 0 .success, .run 0 unready], u, ?_, ?_, still⟩
    · rw [exec_append, run]
      exact once
    · rw [List.length_append, List.length_cons]
      omega

theorem stalls (filename : Str) (saveLocation : Option Str) {n : Nat} (valid : Valid data n) :
    ∃ ls s, exec machine.step (saveASync filename data saveLocation) ls = some s ∧ Stalled s := by
  obtain ⟨p, rfl, some, sized, _⟩ := valid
  have start : saveASync filename (.success (.some p)) saveLocation = begun filename p saveLocation := by
    simp [saveASync, begun, some, sized]
  have length : (devices (parseSFTPUrl filename).2 p saveLocation.isSome).length = p.first.length := by
    simp [devices, ← sized]
  obtain ⟨device, files, hf⟩ := List.exists_cons_of_length_pos
    (length ▸ List.length_pos_iff.mpr some : 0 < (devices (parseSFTPUrl filename).2 p saveLocation.isSome).length)
  rw [start, begun, hf]
  exact ⟨[.call (.resolved 1), .finish 0 .success, .run 0 unready], _, rfl, rfl, rfl, rfl⟩

/-- A save takes at most four steps a file, two a byte and two for each answer to try again, and when
it cannot go on it has called `handle_write` once. A server that keeps answering so keeps any valid
save from its end. -/
theorem sftp_save_ends (filename : Str) (data : ResultType) (saveLocation : Option Str) :
    (∀ ls s, exec machine.step (saveASync filename data saveLocation) ls = some s →
      ls.length ≤ ((contents data).map fun content => 2 * content.length + 4).sum + 1 + 2 * retries s ∧
      ((∀ l, machine.step s l = none) → s.pool = [] ∧ s.state.files = [] ∧ s.state.handleWrites = 1)) ∧
    ∀ n, Valid data n → ∀ k, ∃ ls s, exec machine.step (saveASync filename data saveLocation) ls = some s ∧
      k ≤ ls.length ∧ s.state.handleWrites = 0 := by
  refine ⟨?_, ?_⟩
  · intro ls s run
    have reach := reaches_of_exec run
    have posted : Posted s := reach.invariant (fun _ _ _ ht _ step => ht.step step) (posted_saveASync _ _ _)
    have tracked := reaches_tracked reach
    constructor
    · have bound := exec_length_le_gain (fun t => plan t = plan (saveASync filename data saveLocation))
        (rank (plan (saveASync filename data saveLocation))) (fun t => 2 * retries t) (fun _ => 0)
        (fun t l u same step => (plan_step step).trans same)
        (fun t l u same step => by
          rw [← same]
          exact step_pays step) rfl run
      have start := rank_saveASync filename data saveLocation
      have credits : (ls.map fun _ => 0).sum = 0 := by simp
      omega
    · intro stuck
      obtain ⟨idle, files⟩ := stuck_idle tracked posted stuck
      refine ⟨idle, files, ?_⟩
      rcases saveASync_cases filename data saveLocation with ⟨n, _, start⟩ | ⟨_, start⟩
      · have both : Counted n s ∧ Tracked s :=
          reach.invariant (P := fun s => Counted n s ∧ Tracked s)
            (fun _ _ _ ht _ step => ⟨ht.1.step ht.2 step, ht.2.step step⟩) ⟨start, tracked_saveASync ..⟩
        have tokens := both.1.tokens
        have last : s.state.remainingWrites = 0 := by simpa [idle, files] using tokens.symm
        rw [both.1.handleWrites, if_pos last]
      · have rejected : Rejected s := reach.invariant (fun _ _ _ ht _ step => ht.step step) start
        have tokens := rejected.tokens
        rw [idle] at tokens
        exact (Nat.zero_add _).symm.trans tokens
  · intro n valid k
    obtain ⟨ls, s, run, stalled⟩ := stalls filename saveLocation valid
    obtain ⟨more, t, on, long, still⟩ := stalled.on k
    refine ⟨ls ++ more, t, ?_, ?_, still.handleWrites⟩
    · rw [exec_append, run]
      exact on
    · rw [List.length_append]
      omega

end SFTPSaver

end AsyncIOManager
