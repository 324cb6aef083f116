import AsyncIOManager.Held
import AsyncIOManager.Balance
import AsyncIOManager.URLStringUtil

namespace AsyncIOManager

open Reactor

/-- `a - b` of two `size_t`. -/
def sizeSub (a b : Nat) : Nat := if b ≤ a then a - b else a + 2 ^ 64 - b

/-- `libssh2` pointers; `nullptr` is zero. -/
abbrev Ptr := Nat

/-- `LIBSSH2_ERROR_EAGAIN`. -/
def eagain : Int := -37

/-- The calls of `libssh2` on one session, with what they return. A write goes to
`offset` of the content and asks for `len` bytes. -/
inductive Ssh2Call
  | sessionInit
  | setBlocking (blocking : Bool)
  | handshake (rc : Int)
  | userauthPublickey (user key passphrase : Str) (rc : Int)
  | userauthPassword (user pass : Str) (rc : Int)
  | sftpInit (sftp : Ptr)
  | lastErrno (rc : Int)
  | sftpOpen (sftp : Ptr) (path : Str) (handle : Ptr)
  | sftpWrite (handle : Ptr) (offset len : Nat) (rc : Int)
  | sftpCloseHandle (handle : Ptr)
  | sftpShutdown (sftp : Ptr)
  | sessionDisconnect
  | sessionFree
  | exit
deriving DecidableEq, Repr

/-- What the calls of one handler return. A write accepts at most what it is asked for. -/
structure Ssh2 where
  handshake : Int := 0
  userauth : Int := 0
  sftpInit : Ptr := 1
  initErrno : Int := 0
  sftpOpen : Ptr := 1
  openErrno : Int := 0
  sftpWrite : Nat → Int := fun len => len
  sftpWrite_le : ∀ len, sftpWrite len ≤ len := by intro len; exact Int.le_refl _

structure SFTPUploadDevice where
  sftpHost : Str
  sftpPath : Str
  sftpUser : Str
  sftpPass : Str
  sftpPubkeyfile : Str
  sftpPrivkeyfile : Str
  sftpPrivkeypass : Str
  fileContent : Str
  saveLocation : Bool
deriving DecidableEq, Repr

namespace SFTPUploadDevice

/-- What a device waits for, with the variables its lambdas capture. `completion`
is the callback that it has posted. -/
inductive Continuation
  | connect (endpoints : Nat)
  | handshake
  | auth
  | createSFTP
  | sftpOpen (sftp : Ptr)
  | writeBlocks (sftp sftpHandle : Ptr) (totalBytesWritten : Nat)
  | completion
deriving DecidableEq, Repr

inductive Ec
  | success | error
deriving DecidableEq, Repr

/-- How the write loop has been left. -/
inductive Leave
  | complete | writeError | waitError
deriving DecidableEq, Repr

/-- What a device has done. `location` is what the handler that runs has assigned to
the save location, `posts` counts the callbacks that have been posted. -/
structure Done where
  calls : List Ssh2Call := []
  resolves : List (Str × Str) := []
  location : Option Str := none
  left : Option Leave := none
  posts : Nat := 0
deriving DecidableEq, Repr

abbrev Turn := Loop Done Continuation Ec

def call (c : Ssh2Call) (s : Turn) : Turn := s.modify fun d => { d with calls := d.calls ++ [c] }

def leave (l : Leave) (s : Turn) : Turn := s.modify fun d => { d with left := some l }

def doWriteCallback (s : Turn) : Turn :=
  (s.modify fun d => { d with posts := d.posts + 1 }).post .completion .success

def startSFTPCleanup (sftpHandle sftp : Ptr) (s : Turn) : Turn :=
  let s := if sftpHandle ≠ 0 then call (.sftpCloseHandle sftpHandle) s else s
  let s := if sftp ≠ 0 then call (.sftpShutdown sftp) s else s
  call .exit (call .sessionFree (call .sessionDisconnect s))

def startSFTPWriteBlocks (self : SFTPUploadDevice) (ssh : Ssh2) (sftp sftpHandle : Ptr)
    (totalBytesWritten : Nat) (s : Turn) : Turn :=
  let remaining := sizeSub self.fileContent.length totalBytesWritten
  if remaining = 0 then doWriteCallback (startSFTPCleanup sftpHandle sftp (leave .complete s))
  else
    let rc := ssh.sftpWrite remaining
    let s := call (.sftpWrite sftpHandle totalBytesWritten remaining rc) s
    if 0 < rc then
      let totalBytesWritten := totalBytesWritten + rc.toNat
      if self.fileContent.length ≤ totalBytesWritten then
        doWriteCallback (startSFTPCleanup sftpHandle sftp (leave .complete s))
      else s.start (.writeBlocks sftp sftpHandle totalBytesWritten)
    else if rc = eagain then s.start (.writeBlocks sftp sftpHandle totalBytesWritten)
    else doWriteCallback (startSFTPCleanup sftpHandle sftp (leave .writeError s))

def startSFTPOpen (self : SFTPUploadDevice) (ssh : Ssh2) (sftp : Ptr) (s : Turn) : Turn :=
  let s := call (.sftpOpen sftp (cStr ('.' :: self.sftpPath)) ssh.sftpOpen) s
  if ssh.sftpOpen = 0 then
    let s := call (.lastErrno ssh.openErrno) s
    if ssh.openErrno = eagain then s.start (.sftpOpen sftp) else doWriteCallback s
  else
    let s := if self.saveLocation then
        s.modify fun d => { d with
          location :=
            some ("sftp://".toList ++ self.sftpUser ++ "@".toList ++ self.sftpHost ++ self.sftpPath) }
      else s
    startSFTPWriteBlocks self ssh sftp ssh.sftpOpen 0 s

def startCreateSFTP (self : SFTPUploadDevice) (ssh : Ssh2) (s : Turn) : Turn :=
  let s := call (.sftpInit ssh.sftpInit) s
  if ssh.sftpInit = 0 then
    let s := call (.lastErrno ssh.initErrno) s
    if ssh.initErrno = eagain then s.start .createSFTP else doWriteCallback s
  else startSFTPOpen self ssh ssh.sftpInit s

def userauth (self : SFTPUploadDevice) (rc : Int) : Ssh2Call :=
  if self.sftpPrivkeyfile ≠ [] then
    .userauthPublickey self.sftpUser self.sftpPrivkeyfile self.sftpPrivkeypass rc
  else if self.sftpPubkeyfile ≠ [] then
    .userauthPublickey self.sftpUser self.sftpPubkeyfile self.sftpPrivkeypass rc
  else .userauthPassword self.sftpUser self.sftpPass rc

def startSFTPAuth (self : SFTPUploadDevice) (ssh : Ssh2) (s : Turn) : Turn :=
  let s := call (self.userauth ssh.userauth) s
  if ssh.userauth = 0 then startCreateSFTP self ssh s
  else if ssh.userauth = eagain then s.start .auth
  else doWriteCallback s

def startSFTPHandshake (self : SFTPUploadDevice) (ssh : Ssh2) (s : Turn) : Turn :=
  let s := call (.handshake ssh.handshake) s
  if ssh.handshake = 0 then startSFTPAuth self ssh s
  else if ssh.handshake = eagain then s.start .handshake
  else doWriteCallback s

inductive Resolve
  | resolved (endpoints : Nat) | systemError | stdException | unknownException
deriving DecidableEq, Repr

def startSFTPUpload (self : SFTPUploadDevice) (uploading : Bool) (resolve : Resolve) (s : Turn) : Turn :=
  if uploading then s
  else
    let s := s.modify fun d => { d with resolves := d.resolves ++ [splitHostPort self.sftpHost] }
    match resolve with
    | .resolved endpoints => s.start (.connect endpoints)
    | .systemError | .stdException | .unknownException => doWriteCallback s

/-- The handler of a device. The posted callback is run by the save it belongs to. -/
def Continuation.run (self : SFTPUploadDevice) (c : Continuation) (ec : Ec) (ssh : Ssh2) (s : Turn) : Turn :=
  match c, ec with
  | connect _, .success => startSFTPHandshake self ssh (call (.setBlocking false) s)
  | connect _, .error => doWriteCallback s
  | handshake, .success => startSFTPHandshake self ssh s
  | handshake, .error => doWriteCallback s
  | auth, .success => startSFTPAuth self ssh s
  | auth, .error => doWriteCallback s
  | createSFTP, .success => startCreateSFTP self ssh s
  | createSFTP, .error => doWriteCallback s
  | sftpOpen sftp, .success => startSFTPOpen self ssh sftp s
  | sftpOpen _, .error => doWriteCallback s
  | writeBlocks sftp sftpHandle totalBytesWritten, .success =>
    startSFTPWriteBlocks self ssh sftp sftpHandle totalBytesWritten s
  | writeBlocks sftp sftpHandle _, .error =>
    doWriteCallback (startSFTPCleanup sftpHandle sftp (leave .waitError s))
  | completion, _ => s

/-- Connecting to no endpoint at all fails. -/
def Continuation.completes (c : Continuation) (ec : Ec) : Bool :=
  match c with
  | connect endpoints => endpoints ≠ 0 || ec = .error
  | completion => false
  | _ => true

end SFTPUploadDevice

namespace SFTPSaver

open SFTPUploadDevice

/-- A device and everything it has done. -/
structure Upload where
  device : SFTPUploadDevice
  done : Done
deriving DecidableEq, Repr

/-- One call of `SaveASync`. `files` are the devices it has not created yet,
`saveLocation` the string that the caller's pointer leads to, `handleWrites` counts
the invocations of `handle_write`, and `wrapped` tells that the countdown passed zero. -/
structure Save where
  files : List SFTPUploadDevice := []
  uploads : List Upload := []
  remainingWrites : Nat := 0
  wrapped : Bool := false
  handleWrites : Nat := 0
  saveLocation : Option Str := none
deriving DecidableEq, Repr

inductive Handler
  | upload (i : Nat) (c : Continuation)
  | handleWrite
deriving DecidableEq, Repr

abbrev Saving := Loop Save Handler Ec

def handleWrite (m : Save) : Save := { m with handleWrites := m.handleWrites + 1 }

/-- The callback of a device. -/
def uploadDone (m : Save) : Save :=
  let m := { m with
    wrapped := m.wrapped || m.remainingWrites = 0
    remainingWrites := sizeSub m.remainingWrites 1 }
  if m.remainingWrites = 0 then handleWrite m else m

/-- Take over what the device `i` has done and started in a handler. -/
def settle (i : Nat) (uploads : List Upload) (t : Turn) (s : Saving) : Saving where
  state := { s.state with uploads, saveLocation := t.state.location.or s.state.saveLocation }
  pool := s.pool ++ t.pool.map fun x => ⟨.upload i x.handler, x.outcome⟩

def Handler.run (h : Handler) (ec : Ec) (ssh : Ssh2) (s : Saving) : Option Saving :=
  match h with
  | upload _ .completion => some (s.modify uploadDone)
  | upload i c => s.state.uploads[i]?.map fun u =>
      let t := c.run u.device ec ssh ⟨{ u.done with location := none }, []⟩
      settle i (s.state.uploads.set i ⟨u.device, t.state⟩) t s
  | handleWrite => some (s.modify SFTPSaver.handleWrite)

/-- The next pass of the loop over the files. -/
def startUpload (resolve : Resolve) (s : Saving) : Option Saving :=
  match s.state.files with
  | [] => none
  | device :: files =>
    let t := startSFTPUpload device false resolve (call .sessionInit ⟨{}, []⟩)
    some (settle s.state.uploads.length (s.state.uploads ++ [⟨device, t.state⟩]) t
      (s.modify fun m => { m with files }))

def machine : Machine Save Handler Ec Ssh2 Resolve where
  completes
    | .upload _ c, ec => c.completes ec
    | .handleWrite, _ => false
  run := Handler.run
  call := startUpload

/-- The remote path of a file. -/
def fullFilePath (sftpPath file : Str) : Str :=
  (if sftpPath ≠ [] ∧ sftpPath.getLast? ≠ some '/' then sftpPath ++ "/".toList else sftpPath) ++ file

/-- The devices for the files of a payload. -/
def devices (o : SFTPUrl) (data : Payload) (saveLocation : Bool) : List SFTPUploadDevice :=
  (data.first.zip data.second).map fun (file, content) =>
    { sftpHost := o.host
      sftpPath := fullFilePath o.path file
      sftpUser := o.user
      sftpPass := o.pass
      sftpPubkeyfile := o.publickeyFile
      sftpPrivkeyfile := o.privatekeyFile
      sftpPrivkeypass := o.privatekeyPass
      fileContent := content
      saveLocation }

/-- The state in which the loop over the files starts; without it the callback is posted. -/
def saveASync (filename : Str) (data : ResultType) (saveLocation : Option Str) : Saving :=
  let reject : Saving := Loop.post ⟨{ saveLocation }, []⟩ .handleWrite .success
  match data with
  | .failure _ | .success none => reject
  | .success (some data) =>
    if data.first = [] then reject
    else if data.first.length ≠ data.second.length then reject
    else ⟨{
      files := devices (parseSFTPUrl filename).2 data saveLocation.isSome
      remainingWrites := data.first.length
      saveLocation }, []⟩

end SFTPSaver

end AsyncIOManager
