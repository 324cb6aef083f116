import AsyncIOManager.SFTPAddress
import AsyncIOManager.SFTPLocation

namespace AsyncIOManager

open Reactor Text SFTPUploadDevice SFTPSaver

/-- What the parser guarantees of the parts of a URL that it accepts. -/
structure Parts (o : SFTPUrl) : Prop where
  user : '@' ∉ o.user ∧ ':' ∉ o.user
  host : o.host ≠ [] ∧ '/' ∉ o.host
  path : o.path.head? = some '/'

theorem takePass_user (o : SFTPUrl) : (takePass o).user = upTo [':'] o.user := by
  have colon : ":".toList = [':'] := rfl
  unfold takePass upTo
  rw [colon]
  cases find [':'] o.user <;> rfl

theorem parseCredentials_user (o : SFTPUrl) : (parseCredentials o).user = upTo [':'] o.user := by
  have publicKey (o : SFTPUrl) : (takePublicKey o).user = o.user := by
    unfold takePublicKey
    split <;> rfl
  have privateKey (o : SFTPUrl) : (takePrivateKey o).user = o.user := by
    unfold takePrivateKey
    split <;> rfl
  rw [parseCredentials_eq, takePassphrase_user, privateKey, publicKey, takePass_user]

theorem splitPath_accepted {o : SFTPUrl} (user : '@' ∉ o.user ∧ ':' ∉ o.user)
    (accepted : (splitPath o).1 = true) : Parts (splitPath o).2 := by
  by_cases slash : '/' ∈ o.host
  · obtain ⟨host, path, split, plain⟩ := List.eq_append_cons_of_mem slash
    rw [splitPath_slash plain split] at accepted ⊢
    exact ⟨user, ⟨by simpa using accepted, plain⟩, rfl⟩
  · rw [splitPath_none slash] at accepted
    cases accepted

/-- The parts of an accepted URL end where the characters that end them stand. -/
theorem parseSFTPUrl_parts {url : Str} (accepted : (parseSFTPUrl url).1 = true) : Parts (parseSFTPUrl url).2 := by
  by_cases mem : '@' ∈ url
  · obtain ⟨info, rest, rfl, absent⟩ := List.eq_append_cons_of_mem mem
    rw [parseSFTPUrl_at absent] at accepted ⊢
    refine splitPath_accepted ?_ accepted
    rw [parseCredentials_user]
    exact ⟨fun early => absent ((upTo_isPrefix _ _).subset early), upTo_char ':' info⟩
  · rw [parseSFTPUrl_plain mem] at accepted ⊢
    exact splitPath_accepted (by simp) accepted

/-- The path of a file starts where the path of the URL starts. -/
theorem fullFilePath_slash {path : Str} (file : Str) (slash : path.head? = some '/') :
    ∃ rest, fullFilePath path file = '/' :: rest := by
  obtain ⟨rest, rfl⟩ := List.head?_eq_some_iff.mp slash
  unfold fullFilePath
  split
  · exact ⟨rest ++ "/".toList ++ file, rfl⟩
  · exact ⟨rest ++ file, rfl⟩

/-- A user, a host and a path from an accepted URL are parsed again. -/
theorem Parts.parse {o : SFTPUrl} (parts : Parts o) {path rest : Str} (slash : path = '/' :: rest) :
    parseSFTPUrl (o.user ++ '@' :: (o.host ++ path)) = (true, { user := o.user, host := o.host, path }) := by
  subst slash
  have user : parseCredentials { user := o.user, host := o.host ++ '/' :: rest } =
      { user := o.user, host := o.host ++ '/' :: rest } := by
    simpa [Credential.text, Credential.outputs] using Credential.parsed (c := .absent) trivial parts.user.2
  rw [parseSFTPUrl_at parts.user.1, user, splitPath_slash parts.host.2 rfl]
  simp [parts.host.1]

/-- Writing keeps the calls that have been made. -/
theorem startSFTPWriteBlocks_calls (device : SFTPUploadDevice) (ssh : Ssh2) (sftp sftpHandle : Ptr)
    (total : Nat) (s : Turn) :
    s.state.calls <+: (startSFTPWriteBlocks device ssh sftp sftpHandle total s).state.calls := by
  have called (c : Ssh2Call) (s : Turn) : s.state.calls <+: (call c s).state.calls := List.prefix_append _ _
  have finished (l : Leave) (s : Turn) :
      s.state.calls <+: (doWriteCallback (startSFTPCleanup sftpHandle sftp (leave l s))).state.calls := by
    unfold startSFTPCleanup
    simp only [doWriteCallback, leave, call, Loop.post, Loop.modify]
    split <;> split <;> simp
  unfold startSFTPWriteBlocks
  simp only
  split
  next => exact finished .complete s
  next =>
    split
    next =>
      split
      next => exact (called _ s).trans (finished .complete _)
      next => exact called _ s
    next =>
      split
      next => exact called _ s
      next => exact (called _ s).trans (finished .writeError _)

/-- The file that has been opened is '.' followed by `path`, and the location that has been
reported is parsed into the user and the host of the URL, that path, and no secret. -/
def LocatesOpened (o : SFTPUrl) (path : Str) (sftp handle : Ptr) (s t : Turn) : Prop :=
  s.state.calls ++ [.sftpOpen sftp ('.' :: path) handle] <+: t.state.calls ∧
  ∃ location, t.state.location = some location ∧ (getURLComponents location).1 = true ∧
    (getURLComponents location).2.pre = "sftp".toList ∧
    parseSFTPUrl (getURLComponents location).2.base = (true, { user := o.user, host := o.host, path })

/-- The device makes its call with the path as a C string. -/
theorem startSFTPOpen_calls (device : SFTPUploadDevice) {ssh : Ssh2} (opened : ssh.sftpOpen ≠ 0) (sftp : Ptr)
    (s : Turn) : s.state.calls ++ [.sftpOpen sftp (cStr ('.' :: device.sftpPath)) ssh.sftpOpen] <+:
      (startSFTPOpen device ssh sftp s).state.calls := by
  have writes := startSFTPWriteBlocks_calls device ssh sftp ssh.sftpOpen 0
  unfold startSFTPOpen
  simp only [if_neg opened]
  refine List.IsPrefix.trans ?_ (writes _)
  cases device.saveLocation with
  | true | false => exact List.prefix_rfl

theorem startSFTPOpen_reports {device : SFTPUploadDevice} (located : device.saveLocation = true) {ssh : Ssh2}
    (opened : ssh.sftpOpen ≠ 0) (sftp : Ptr) (s : Turn) : (startSFTPOpen device ssh sftp s).state.location =
      some ("sftp://".toList ++ device.sftpUser ++ "@".toList ++ device.sftpHost ++ device.sftpPath) := by
  unfold startSFTPOpen
  simp only [if_neg opened, located, if_true]
  rw [startSFTPWriteBlocks_location]
  rfl

/-- The device for the file of that index. -/
theorem devices_named {o : SFTPUrl} {data : Payload} {saveLocation : Bool} {i : Nat} {device : SFTPUploadDevice}
    {file : Str} (created : (devices o data saveLocation)[i]? = some device) (named : data.first[i]? = some file) :
    device.sftpUser = o.user ∧ device.sftpHost = o.host ∧ device.sftpPath = fullFilePath o.path file ∧
      device.saveLocation = saveLocation := by
  rw [devices, List.getElem?_map] at created
  obtain ⟨⟨first, content⟩, zipped, rfl⟩ := Option.map_eq_some_iff.mp created
  obtain rfl : first = file := Option.some.inj ((List.getElem?_zip_eq_some.mp zipped).1.symm.trans named)
  exact ⟨rfl, rfl, rfl, rfl⟩

/-- What a device reports says which file it has opened if and only if there is no NUL in the path. -/
theorem location_parses_back_iff {url : Str} {data : Payload} {i : Nat} {device : SFTPUploadDevice} {file : Str}
    (accepted : (parseSFTPUrl url).1 = true) (created : (devices (parseSFTPUrl url).2 data true)[i]? = some device)
    (named : data.first[i]? = some file) {ssh : Ssh2} (opened : ssh.sftpOpen ≠ 0) (sftp : Ptr) (s : Turn) :
    LocatesOpened (parseSFTPUrl url).2 (fullFilePath (parseSFTPUrl url).2.path file) sftp ssh.sftpOpen s
        (startSFTPOpen device ssh sftp s) ↔
      nul ∉ fullFilePath (parseSFTPUrl url).2.path file := by
  have parts := parseSFTPUrl_parts accepted
  obtain ⟨user, host, joined, located⟩ := devices_named created named
  have calls := startSFTPOpen_calls device opened sftp s
  have location := startSFTPOpen_reports located opened sftp s
  rw [joined] at calls location
  rw [user, host] at location
  obtain ⟨rest, slash⟩ := fullFilePath_slash file parts.path
  generalize fullFilePath (parseSFTPUrl url).2.path file = path at *
  have dotted : cStr ('.' :: path) = '.' :: path ↔ nul ∉ path := by
    simp [cStr_eq_iff, nul]
  constructor
  · intro located
    have same := (List.prefix_of_prefix_length_le located.1 calls (by simp)).eq_of_length (by simp)
    exact dotted.mp (by simpa using same.symm)
  · intro plain
    rw [dotted.mpr plain] at calls
    obtain ⟨split, scheme, base⟩ := getURLComponents_scheme
      ((parseSFTPUrl url).2.user ++ '@' :: ((parseSFTPUrl url).2.host ++ path)) (show ':' ∉ "sftp".toList by decide)
    refine ⟨calls, _, location, ?_⟩
    have whole : "sftp://".toList ++ (parseSFTPUrl url).2.user ++ "@".toList ++ (parseSFTPUrl url).2.host ++ path =
        "sftp".toList ++ ("://".toList ++ ((parseSFTPUrl url).2.user ++ '@' :: ((parseSFTPUrl url).2.host ++ path))) := by
      simp
    rw [whole]
    exact ⟨split, scheme, base ▸ parts.parse slash⟩

theorem location_parses_back_port : ∃ t : Turn,
    LocatesOpened (parseSFTPUrl "u:pw@h:2/d".toList).2 "/d/f@:/".toList 1 1 ⟨{}, []⟩ t := by
  have accepted : (parseSFTPUrl "u:pw@h:2/d".toList).1 = true := by decide
  have opened : ({} : Ssh2).sftpOpen ≠ 0 := by decide
  have located := (location_parses_back_iff accepted
    (show (devices (parseSFTPUrl "u:pw@h:2/d".toList).2 ⟨["f@:/".toList], ["data".toList]⟩ true)[0]? = some _ from rfl)
    (show ["f@:/".toList][0]? = some "f@:/".toList from rfl) opened 1 ⟨{}, []⟩).mpr (by decide)
  exact ⟨_, located⟩

/-- The file that is opened ends before the NUL, and the location goes on behind it. -/
theorem location_of_nul : ∃ device : SFTPUploadDevice,
    (devices (parseSFTPUrl "u:pw@h:2/d".toList).2 ⟨["f\x00g".toList], ["data".toList]⟩ true)[0]? = some device ∧
    (startSFTPOpen device {} 1 ⟨{}, []⟩).state.calls.head? = some (.sftpOpen 1 "./d/f".toList 1) ∧
    (startSFTPOpen device {} 1 ⟨{}, []⟩).state.location = some "sftp://u@h:2/d/f\x00g".toList ∧
    ¬ LocatesOpened (parseSFTPUrl "u:pw@h:2/d".toList).2 "/d/f\x00g".toList 1 1 ⟨{}, []⟩
      (startSFTPOpen device {} 1 ⟨{}, []⟩) := by
  refine ⟨_, rfl, by decide, by decide, fun located => ?_⟩
  exact absurd located.1 (by decide)

end AsyncIOManager
