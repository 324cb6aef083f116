import AsyncIOManager.SFTPSaver
import AsyncIOManager.Runs

namespace AsyncIOManager

open Reactor

/-- How far a `libssh2` session has come. -/
inductive Phase
  | fresh | initialised | handshaking | authenticating | creating
  | opening (sftp : Ptr)
  | writing (sftp handle : Ptr)
  | handleClosed (sftp : Ptr)
  | sftpClosed | disconnected | freed | exited
deriving DecidableEq, Repr

/-- The calls that a session allows, and what they lead to. -/
def protocol : Phase → Ssh2Call → Option Phase
  | .fresh, .sessionInit => some .initialised
  | .initialised, .setBlocking _ => some .handshaking
  | .handshaking, .handshake rc => some (if rc = 0 then .authenticating else .handshaking)
  | .authenticating, .userauthPublickey _ _ _ rc => some (if rc = 0 then .creating else .authenticating)
  | .authenticating, .userauthPassword _ _ rc => some (if rc = 0 then .creating else .authenticating)
  | .creating, .sftpInit sftp => some (if sftp = 0 then .creating else .opening sftp)
  | .creating, .lastErrno _ => some .creating
  | .opening sftp, .sftpOpen used _ handle =>
    if used = sftp then some (if handle = 0 then .opening sftp else .writing sftp handle) else none
  | .opening sftp, .lastErrno _ => some (.opening sftp)
  | .writing sftp handle, .sftpWrite used _ _ _ => if used = handle then some (.writing sftp handle) else none
  | .writing sftp handle, .sftpCloseHandle used => if used = handle then some (.handleClosed sftp) else none
  | .handleClosed sftp, .sftpShutdown used => if used = sftp then some .sftpClosed else none
  | .sftpClosed, .sessionDisconnect => some .disconnected
  | .disconnected, .sessionFree => some .freed
  | .freed, .exit => some .exited
  | _, _ => none

def Ssh2Call.userauth : Ssh2Call → Option Int
  | userauthPublickey _ _ _ rc => some rc
  | userauthPassword _ _ rc => some rc
  | _ => none

/-- The order of the stages; asking for the last error belongs to none. -/
def Ssh2Call.stage : Ssh2Call → Nat
  | lastErrno _ => 0
  | sessionInit => 1
  | setBlocking _ => 2
  | handshake _ => 3
  | userauthPublickey _ _ _ _ => 4
  | userauthPassword _ _ _ => 4
  | sftpInit _ => 5
  | sftpOpen _ _ _ => 6
  | sftpWrite _ _ _ _ => 7
  | sftpCloseHandle _ => 8
  | sftpShutdown _ => 9
  | sessionDisconnect => 10
  | sessionFree => 11
  | exit => 12

/-- The stage of the last calls that can have led to a phase. -/
def Phase.stage : Phase → Nat
  | fresh => 0
  | initialised => 1
  | handshaking => 3
  | authenticating => 4
  | creating => 5
  | opening _ => 6
  | writing _ _ => 7
  | handleClosed _ => 8
  | sftpClosed => 9
  | disconnected => 10
  | freed => 11
  | exited => 12

/-- What must have happened on a session before the next call. -/
structure Ordered (before : List Ssh2Call) (c : Ssh2Call) : Prop where
  userauth : ∀ rc, c.userauth = some rc → .handshake 0 ∈ before
  sftpInit : ∀ sftp, c = .sftpInit sftp → ∃ d ∈ before, d.userauth = some 0
  sftpOpen : ∀ sftp path handle, c = .sftpOpen sftp path handle → sftp ≠ 0 ∧ .sftpInit sftp ∈ before
  sftpWrite : ∀ handle offset len rc, c = .sftpWrite handle offset len rc →
    handle ≠ 0 ∧ ∃ sftp path, .sftpOpen sftp path handle ∈ before
  forward : ∀ d ∈ before, c.stage ≠ 0 → d.stage ≤ c.stage
  cleanup : ∀ d ∈ before, 8 ≤ d.stage → d.stage < c.stage

/-- What a phase tells about the calls that have led to it. -/
structure History (calls : List Ssh2Call) (p : Phase) : Prop where
  handshake : 4 ≤ p.stage → .handshake 0 ∈ calls
  userauth : 5 ≤ p.stage → ∃ d ∈ calls, d.userauth = some 0
  opening : ∀ sftp, p = .opening sftp → sftp ≠ 0 ∧ .sftpInit sftp ∈ calls
  writing : ∀ sftp handle, p = .writing sftp handle →
    handle ≠ 0 ∧ ∃ sftp path, .sftpOpen sftp path handle ∈ calls
  stages : ∀ d ∈ calls, d.stage ≤ p.stage

/-- What one call on a session can do. -/
inductive Ssh2Step : Phase → Ssh2Call → Phase → Prop
  | sessionInit : Ssh2Step .fresh .sessionInit .initialised
  | setBlocking (blocking : Bool) : Ssh2Step .initialised (.setBlocking blocking) .handshaking
  | shaken : Ssh2Step .handshaking (.handshake 0) .authenticating
  | handshake {rc : Int} : rc ≠ 0 → Ssh2Step .handshaking (.handshake rc) .handshaking
  | accepted {c : Ssh2Call} : c.userauth = some 0 → Ssh2Step .authenticating c .creating
  | userauth {c : Ssh2Call} {rc : Int} : c.userauth = some rc → rc ≠ 0 →
      Ssh2Step .authenticating c .authenticating
  | created {sftp : Ptr} : sftp ≠ 0 → Ssh2Step .creating (.sftpInit sftp) (.opening sftp)
  | sftpInit : Ssh2Step .creating (.sftpInit 0) .creating
  | initErrno (rc : Int) : Ssh2Step .creating (.lastErrno rc) .creating
  | opened {sftp handle : Ptr} {path : Str} : handle ≠ 0 →
      Ssh2Step (.opening sftp) (.sftpOpen sftp path handle) (.writing sftp handle)
  | sftpOpen {sftp : Ptr} {path : Str} : Ssh2Step (.opening sftp) (.sftpOpen sftp path 0) (.opening sftp)
  | openErrno {sftp : Ptr} (rc : Int) : Ssh2Step (.opening sftp) (.lastErrno rc) (.opening sftp)
  | sftpWrite {sftp handle : Ptr} (offset len : Nat) (rc : Int) :
      Ssh2Step (.writing sftp handle) (.sftpWrite handle offset len rc) (.writing sftp handle)
  | sftpCloseHandle {sftp handle : Ptr} :
      Ssh2Step (.writing sftp handle) (.sftpCloseHandle handle) (.handleClosed sftp)
  | sftpShutdown {sftp : Ptr} : Ssh2Step (.handleClosed sftp) (.sftpShutdown sftp) .sftpClosed
  | sessionDisconnect : Ssh2Step .sftpClosed .sessionDisconnect .disconnected
  | sessionFree : Ssh2Step .disconnected .sessionFree .freed
  | exit : Ssh2Step .freed .exit .exited

theorem ssh2Step_userauth {c : Ssh2Call} {rc : Int} (hc : c.userauth = some rc) :
    Ssh2Step .authenticating c (if rc = 0 then .creating else .authenticating) := by
  split
  next zero => exact .accepted (zero ▸ hc)
  next more => exact .userauth hc more

theorem protocol_step {p q : Phase} {c : Ssh2Call} (h : protocol p c = some q) : Ssh2Step p c q := by
  unfold protocol at h
  split at h
  case h_1 => exact Option.some.inj h ▸ .sessionInit
  case h_2 blocking => exact Option.some.inj h ▸ .setBlocking blocking
  case h_3 rc =>
    obtain rfl := Option.some.inj h
    split
    next zero => exact zero ▸ .shaken
    next more => exact .handshake more
  case h_4 => exact Option.some.inj h ▸ ssh2Step_userauth rfl
  case h_5 => exact Option.some.inj h ▸ ssh2Step_userauth rfl
  case h_6 sftp =>
    obtain rfl := Option.some.inj h
    split
    next none => exact none ▸ .sftpInit
    next some => exact .created some
  case h_7 rc => exact Option.some.inj h ▸ .initErrno rc
  case h_8 sftp used path handle =>
    split at h
    next same =>
      obtain rfl := same
      obtain rfl := Option.some.inj h
      split
      next none => exact none ▸ .sftpOpen
      next some => exact .opened some
    next => cases h
  case h_9 sftp rc => exact Option.some.inj h ▸ .openErrno rc
  case h_10 sftp handle used offset len rc =>
    split at h
    next same => exact Option.some.inj h ▸ same ▸ .sftpWrite offset len rc
    next => cases h
  case h_11 sftp handle used =>
    split at h
    next same => exact Option.some.inj h ▸ same ▸ .sftpCloseHandle
    next => cases h
  case h_12 sftp used =>
    split at h
    next same => exact Option.some.inj h ▸ same ▸ .sftpShutdown
    next => cases h
  case h_13 => exact Option.some.inj h ▸ .sessionDisconnect
  case h_14 => exact Option.some.inj h ▸ .sessionFree
  case h_15 => exact Option.some.inj h ▸ .exit
  case h_16 => cases h

theorem stage_of_userauth {c : Ssh2Call} {rc : Int} (h : c.userauth = some rc) : c.stage = 4 := by
  cases c with
  | userauthPublickey user key passphrase rc => rfl
  | userauthPassword user pass rc => rfl
  | _ => cases h

/-- A call belongs to the stage of the phase or to the next one, and one that cleans
up to the next one. -/
theorem Ssh2Step.stage {p q : Phase} {c : Ssh2Call} (h : Ssh2Step p c q) :
    c.stage ≤ q.stage ∧ p.stage ≤ q.stage ∧ (c.stage ≠ 0 → p.stage ≤ c.stage) ∧
      (8 ≤ p.stage → p.stage < c.stage) := by
  cases h with
  | accepted hc => simp [stage_of_userauth hc, Phase.stage]
  | userauth hc _ => simp [stage_of_userauth hc, Phase.stage]
  | _ => simp [Ssh2Call.stage, Phase.stage]

theorem History.next {calls : List Ssh2Call} {p q : Phase} {c : Ssh2Call} (h : History calls p)
    (hc : Ssh2Step p c q) : History (calls ++ [c]) q := by
  obtain ⟨own, up, _⟩ := hc.stage
  have now : c ∈ calls ++ [c] := List.mem_append_right _ (List.mem_singleton_self _)
  refine ⟨fun far => ?_, fun far => ?_, ?_, ?_, ?_⟩
  · have before : 4 ≤ p.stage ∨ c = .handshake 0 := by cases hc <;> simp_all [Phase.stage]
    rcases before with before | rfl
    · exact List.mem_append_left _ (h.handshake before)
    · exact now
  · have before : 5 ≤ p.stage ∨ c.userauth = some 0 := by cases hc <;> simp_all [Phase.stage]
    rcases before with before | accepted
    · obtain ⟨d, hd, accepted⟩ := h.userauth before
      exact ⟨d, List.mem_append_left _ hd, accepted⟩
    · exact ⟨c, now, accepted⟩
  · intro sftp opening
    have before : p = .opening sftp ∨ (sftp ≠ 0 ∧ c = .sftpInit sftp) := by cases hc <;> simp_all
    rcases before with before | ⟨some, rfl⟩
    · obtain ⟨some, mem⟩ := h.opening sftp before
      exact ⟨some, List.mem_append_left _ mem⟩
    · exact ⟨some, now⟩
  · intro sftp handle writing
    have before : p = .writing sftp handle ∨ (handle ≠ 0 ∧ ∃ path, c = .sftpOpen sftp path handle) := by
      cases hc <;> simp_all
    rcases before with before | ⟨some, path, rfl⟩
    · obtain ⟨some, used, path, mem⟩ := h.writing sftp handle before
      exact ⟨some, used, path, List.mem_append_left _ mem⟩
    · exact ⟨some, sftp, path, now⟩
  · intro d hd
    rcases List.mem_append.mp hd with old | new
    · exact Nat.le_trans (h.stages d old) up
    · obtain rfl := List.mem_singleton.mp new
      exact own

/-- A call that the protocol allows is in order. -/
theorem History.ordered {calls : List Ssh2Call} {p q : Phase} {c : Ssh2Call} (h : History calls p)
    (hc : Ssh2Step p c q) : Ordered calls c := by
  obtain ⟨_, _, forward, cleanup⟩ := hc.stage
  refine ⟨?_, ?_, ?_, ?_, ?_, ?_⟩
  · intro rc tried
    have here : p = .authenticating := by cases hc <;> simp_all [Ssh2Call.userauth]
    exact h.handshake (by simp [here, Phase.stage])
  · intro sftp init
    have here : p = .creating := by cases hc <;> simp_all [Ssh2Call.userauth]
    exact h.userauth (by simp [here, Phase.stage])
  · intro sftp path handle opens
    have here : p = .opening sftp := by cases hc <;> simp_all [Ssh2Call.userauth]
    exact h.opening sftp here
  · intro handle offset len rc write
    have here : ∃ sftp, p = .writing sftp handle := by cases hc <;> simp_all [Ssh2Call.userauth]
    obtain ⟨sftp, here⟩ := here
    exact h.writing sftp handle here
  · intro d hd stage
    exact Nat.le_trans (h.stages d hd) (forward stage)
  · intro d hd closing
    have before := h.stages d hd
    exact Nat.lt_of_le_of_lt before (cleanup (Nat.le_trans closing before))

theorem history_start : History [] .fresh := by
  refine ⟨fun far => ?_, fun far => ?_, by simp, by simp, by simp⟩
  · exact absurd far (by decide)
  · exact absurd far (by decide)

theorem history_protocol {calls : List Ssh2Call} {p : Phase} (h : exec protocol .fresh calls = some p) :
    History calls p :=
  exec_history (I := History) history_start (fun _ _ _ _ known hc => known.next (protocol_step hc)) h

/-- On a session that follows the protocol every call is in order. -/
theorem protocol_ordered {before rest : List Ssh2Call} {c : Ssh2Call} {p : Phase}
    (h : exec protocol .fresh (before ++ c :: rest) = some p) : Ordered before c := by
  obtain ⟨q, _, reached, next⟩ := exec_split h
  exact (history_protocol reached).ordered (protocol_step next)

end AsyncIOManager
