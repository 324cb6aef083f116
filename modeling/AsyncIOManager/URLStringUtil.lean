import AsyncIOManager.Results
import AsyncIOManager.Text

namespace AsyncIOManager

open Text

structure URLComponents where
  pre : Str := []
  base : Str := []
  extension : Str := []
deriving DecidableEq, Repr

/-- The output parameters start out empty, as at every call of the source. -/
def getURLComponents (url : Str) : Bool × URLComponents :=
  if url = [] then (false, {})
  else
    match find "://".toList url with
    | none => (false, {})
    | some index =>
      let base := url.drop (index + 3)
      let extension :=
        match rfind ".".toList base with
        | none => []
        | some start => base.drop (start + 1)
      (true, { pre := url.take index, base, extension })

/-- A URL is split at the first separator. -/
theorem getURLComponents_split {scheme : Str} (base : Str) (first : ¬ "://".toList <:+: scheme) :
    (getURLComponents (scheme ++ ("://".toList ++ base))).1 = true ∧
      (getURLComponents (scheme ++ ("://".toList ++ base))).2.pre = scheme ∧
      (getURLComponents (scheme ++ ("://".toList ++ base))).2.base = base := by
  have found := find_sharp (show Sharp "://".toList by decide) first base
  have some : scheme ++ ("://".toList ++ base) ≠ [] := by simp
  have behind : (scheme ++ ("://".toList ++ base)).drop (scheme.length + 3) = base := by
    rw [← List.append_assoc]
    exact List.drop_left' (by simp)
  unfold getURLComponents
  rw [if_neg some, found]
  exact ⟨rfl, List.take_left, behind⟩

/-- A URL that starts with a scheme is split behind it. -/
theorem getURLComponents_scheme {scheme : Str} (base : Str) (plain : ':' ∉ scheme) :
    (getURLComponents (scheme ++ ("://".toList ++ base))).1 = true ∧
      (getURLComponents (scheme ++ ("://".toList ++ base))).2.pre = scheme ∧
      (getURLComponents (scheme ++ ("://".toList ++ base))).2.base = base := by
  refine getURLComponents_split base ?_
  intro occurs
  exact plain (occurs.subset (by simp))

/-- A URL without a separator is not accepted, and leaves the outputs as they are. -/
theorem getURLComponents_none {url : Str} (absent : ¬ "://".toList <:+: url) :
    getURLComponents url = (false, {}) := by
  unfold getURLComponents
  rw [find_none_iff.mpr absent]
  split <;> rfl

structure HTTPUrl where
  host : Str := []
  path : Str := []
  port : Str := []
deriving DecidableEq, Repr

def parseHTTPUrl (url : Str) : Bool × HTTPUrl :=
  if url = [] then (false, {})
  else
    match find "/".toList url with
    | none => (false, {})
    | some index =>
      let host := url.take index
      let path := url.drop index
      if host = [] then (false, { host, path })
      else
        match find ":".toList host with
        | none => (true, { host, path, port := "443".toList })
        | some portIndex =>
          let port := host.drop (portIndex + 1)
          let host := host.take portIndex
          (port ≠ [] ∧ host ≠ [], { host, path, port })

theorem parseHTTPUrl_none {url : Str} (absent : '/' ∉ url) : (parseHTTPUrl url).1 = false := by
  have none : ¬ ['/'] <:+: url := by rwa [singleton_infix_iff]
  have slash : find "/".toList url = .none := find_none_iff.mpr none
  unfold parseHTTPUrl
  rw [slash]
  split <;> rfl

theorem parseHTTPUrl_empty (rest : Str) : (parseHTTPUrl ('/' :: rest)).1 = false := by
  have found : find "/".toList ('/' :: rest) = some 0 := find_char (List.not_mem_nil (a := '/'))
  unfold parseHTTPUrl
  rw [if_neg (by simp), found]
  rfl

/-- A host without a port gets the default one. -/
theorem parseHTTPUrl_host {host : Str} (some : host ≠ []) (noSlash : '/' ∉ host) (noColon : ':' ∉ host)
    (rest : Str) : parseHTTPUrl (host ++ '/' :: rest) = (true, ⟨host, '/' :: rest, "443".toList⟩) := by
  have slash : find "/".toList (host ++ '/' :: rest) = .some host.length := find_char noSlash
  have none : ¬ [':'] <:+: host := by rwa [singleton_infix_iff]
  have colon : find ":".toList host = .none := find_none_iff.mpr none
  unfold parseHTTPUrl
  rw [if_neg (by simp), slash]
  simp only [List.take_left, List.drop_left]
  rw [if_neg some, colon]

/-- The first colon before the path ends the host. -/
theorem parseHTTPUrl_port {host port : Str} (hostSlash : '/' ∉ host) (noColon : ':' ∉ host) (portSlash : '/' ∉ port)
    (rest : Str) : parseHTTPUrl (host ++ ':' :: port ++ '/' :: rest) =
      (decide (port ≠ [] ∧ host ≠ []), ⟨host, '/' :: rest, port⟩) := by
  have plain : '/' ∉ host ++ ':' :: port := by simp [hostSlash, portSlash]
  have slash : find "/".toList (host ++ ':' :: port ++ '/' :: rest) = some (host ++ ':' :: port).length :=
    find_char plain
  have colon : find ":".toList (host ++ ':' :: port) = some host.length := find_char noColon
  have behind : (host ++ ':' :: port).drop (host.length + 1) = port := by
    rw [List.append_cons]
    exact List.drop_left' (by simp)
  unfold parseHTTPUrl
  rw [if_neg (by simp), slash]
  simp only [List.take_left, List.drop_left]
  rw [if_neg (by simp), colon]
  simp only [List.take_left, behind]

structure SFTPUrl where
  host : Str := []
  path : Str := []
  user : Str := []
  pass : Str := []
  publickeyFile : Str := []
  privatekeyFile : Str := []
  privatekeyPass : Str := []
deriving DecidableEq, Repr

/-- Skip the optional separator after a key marker. -/
def skipSeparator (pass : Str) (start : Nat) : Nat :=
  if start < pass.length ∧ pass[start]? = some ':' then start + 1 else start

/-- Split the text before `@` into user, password and keys. -/
def parseCredentials (o : SFTPUrl) : SFTPUrl :=
  let o :=
    match find ":".toList o.user with
    | none => { o with pass := [] }
    | some index => { o with pass := o.user.drop (index + 1), user := o.user.take index }
  let o :=
    match find "pubkey_identifier".toList o.pass with
    | none => o
    | some index =>
      { o with publickeyFile := o.pass.drop (skipSeparator o.pass (index + 17)), pass := [] }
  let o :=
    match find "privkey_identifier".toList o.pass with
    | none => o
    | some index =>
      { o with privatekeyFile := o.pass.drop (skipSeparator o.pass (index + 18)), pass := [] }
  if o.privatekeyFile = [] then o
  else
    match find "key_passphrase".toList o.privatekeyFile with
    | none => o
    | some index =>
      { o with
        privatekeyPass := o.privatekeyFile.drop (index + 14)
        privatekeyFile := o.privatekeyFile.take index }

def parseSFTPUrl (url : Str) : Bool × SFTPUrl :=
  if url = [] then (false, {})
  else
    let o : SFTPUrl :=
      match find "@".toList url with
      | none => { host := url }
      | some index => { user := url.take index, host := url.drop (index + 1) }
    let o := if o.user = [] then o else parseCredentials o
    match find "/".toList o.host with
    | none => (false, o)
    | some index =>
      let o := { o with path := o.host.drop index, host := o.host.take index }
      (o.host ≠ [], o)

structure IPFSUrl where
  cid : Str := []
  file : Str := []
deriving DecidableEq, Repr

def parseIPFSUrl (url : Str) : Bool × IPFSUrl :=
  if url = [] then (false, {})
  else
    match find "/".toList url with
    | none => (false, {})
    | some index =>
      let o : IPFSUrl := { cid := url.take index, file := url.drop (index + 1) }
      (o.cid ≠ [], o)

/-- A URL is accepted when a file, perhaps without a name, follows the CID. -/
theorem parseIPFSUrl_slash {cid : Str} (some : cid ≠ []) (plain : '/' ∉ cid) (file : Str) :
    parseIPFSUrl (cid ++ '/' :: file) = (true, ⟨cid, file⟩) := by
  have url : cid ++ '/' :: file ≠ [] := by simp
  have found : find "/".toList (cid ++ '/' :: file) = .some cid.length := find_char plain
  have behind : (cid ++ '/' :: file).drop (cid.length + 1) = file := by
    rw [List.append_cons]
    exact List.drop_left' (by simp)
  rw [parseIPFSUrl, if_neg url, found]
  simp [behind, some]

theorem parseIPFSUrl_plain {cid : Str} (plain : '/' ∉ cid) : (parseIPFSUrl cid).1 = false := by
  have none : ¬ ['/'] <:+: cid := by rwa [singleton_infix_iff]
  have absent : find "/".toList cid = .none := find_none_iff.mpr none
  unfold parseIPFSUrl
  split
  next => rfl
  next => rw [absent]

/-- The host and port that an SFTP host string names: the port follows its last colon. -/
def splitHostPort (sftpHost : Str) : Str × Str :=
  match rfind ":".toList sftpHost with
  | none => (sftpHost, "22".toList)
  | some colonPos => (sftpHost.take colonPos, sftpHost.drop (colonPos + 1))

/-- `std::filesystem::path::filename`: the text after the last slash. -/
def filename (path : Str) : Str :=
  match rfind "/".toList path with
  | none => path
  | some i => path.drop (i + 1)

theorem filename_plain {name : Str} (plain : '/' ∉ name) : filename name = name := by
  simp [filename, rfind_none_iff.mpr plain]

theorem filename_last (dir : Str) {name : Str} (plain : '/' ∉ name) : filename (dir ++ '/' :: name) = name := by
  have last : rfind ['/'] (dir ++ '/' :: name) = some dir.length := rfind_last dir plain
  simp [filename, last]

theorem filename_cases (path : Str) :
    ('/' ∉ path ∧ filename path = path) ∨
      ∃ dir name, path = dir ++ '/' :: name ∧ '/' ∉ name ∧ filename path = name := by
  by_cases slash : '/' ∈ path
  · obtain ⟨dir, name, same, last⟩ := last_occurrence slash
    exact .inr ⟨dir, name, same, last, same ▸ filename_last dir last⟩
  · exact .inl ⟨slash, filename_plain slash⟩

@[simp] theorem filename_filename (path : Str) : filename (filename path) = filename path := by
  rcases filename_cases path with ⟨plain, same⟩ | ⟨_, name, _, plain, same⟩
  · rw [same, same]
  · rw [same]
    exact filename_plain plain

example : (parseSFTPUrl "u:privkey_identifier:k@h:1/p".toList).2.privatekeyFile = ['k'] := by decide

end AsyncIOManager
