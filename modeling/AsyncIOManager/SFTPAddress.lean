import AsyncIOManager.SFTPSaver

namespace AsyncIOManager

open Reactor Text

/-- The last part of `parseSFTPUrl`: split the text after the credentials at its first slash. -/
def splitPath (o : SFTPUrl) : Bool × SFTPUrl :=
  match find "/".toList o.host with
  | none => (false, o)
  | some index =>
    let o := { o with path := o.host.drop index, host := o.host.take index }
    (o.host ≠ [], o)

theorem splitPath_none {o : SFTPUrl} (absent : '/' ∉ o.host) : splitPath o = (false, o) := by
  have none : find ['/'] o.host = none := find_none_iff.mpr (by rwa [singleton_infix_iff])
  simp [splitPath, none]

theorem splitPath_slash {o : SFTPUrl} {host path : Str} (plain : '/' ∉ host)
    (split : o.host = host ++ '/' :: path) :
    splitPath o = (decide (host ≠ []), { o with host, path := '/' :: path }) := by
  have found : find ['/'] (host ++ '/' :: path) = some host.length := find_char plain
  simp [splitPath, split, found]

/-- The first step of `parseCredentials`: what follows the first colon is the password. -/
def takePass (o : SFTPUrl) : SFTPUrl :=
  match find ":".toList o.user with
  | none => { o with pass := [] }
  | some index => { o with pass := o.user.drop (index + 1), user := o.user.take index }

def takePublicKey (o : SFTPUrl) : SFTPUrl :=
  match find "pubkey_identifier".toList o.pass with
  | none => o
  | some index =>
    { o with publickeyFile := o.pass.drop (skipSeparator o.pass (index + 17)), pass := [] }

def takePrivateKey (o : SFTPUrl) : SFTPUrl :=
  match find "privkey_identifier".toList o.pass with
  | none => o
  | some index =>
    { o with privatekeyFile := o.pass.drop (skipSeparator o.pass (index + 18)), pass := [] }

def takePassphrase (o : SFTPUrl) : SFTPUrl :=
  if o.privatekeyFile = [] then o
  else
    match find "key_passphrase".toList o.privatekeyFile with
    | none => o
    | some index =>
      { o with
        privatekeyPass := o.privatekeyFile.drop (index + 14)
        privatekeyFile := o.privatekeyFile.take index }

theorem parseCredentials_eq (o : SFTPUrl) :
    parseCredentials o = takePassphrase (takePrivateKey (takePublicKey (takePass o))) := rfl

theorem takePass_none {o : SFTPUrl} (absent : ':' ∉ o.user) : takePass o = { o with pass := [] } := by
  have none : find [':'] o.user = none := find_none_iff.mpr (by rwa [singleton_infix_iff])
  simp [takePass, none]

theorem takePass_colon {o : SFTPUrl} {user pass : Str} (plain : ':' ∉ user)
    (split : o.user = user ++ ':' :: pass) : takePass o = { o with user, pass } := by
  have found : find [':'] (user ++ ':' :: pass) = some user.length := find_char plain
  simp [takePass, split, found]

/-- What follows a marker, without the optional separator. -/
def afterSeparator (text : Str) : Str :=
  match text with
  | ':' :: key => key
  | key => key

theorem skipSeparator_drop (front back : Str) :
    (front ++ back).drop (skipSeparator (front ++ back) front.length) = afterSeparator back := by
  cases back with
  | nil => simp [skipSeparator, afterSeparator]
  | cons c back =>
    by_cases separated : c = ':'
    · simp [skipSeparator, afterSeparator, separated]
    · simp [skipSeparator, afterSeparator, separated]

/-- The first occurrence of a marker, and what is taken from behind it. -/
theorem marker_cut {marker front : Str} (sharp : Sharp marker) (first : ¬ marker <:+: front) (back : Str) :
    find marker (front ++ (marker ++ back)) = some front.length ∧
      (front ++ (marker ++ back)).drop
        (skipSeparator (front ++ (marker ++ back)) (front.length + marker.length)) = afterSeparator back := by
  have skipped := skipSeparator_drop (front ++ marker) back
  rw [List.append_assoc, List.length_append] at skipped
  exact ⟨find_sharp sharp first back, skipped⟩

theorem takePublicKey_none {o : SFTPUrl} (absent : ¬ "pubkey_identifier".toList <:+: o.pass) :
    takePublicKey o = o := by
  unfold takePublicKey
  rw [find_none_iff.mpr absent]

theorem takePublicKey_marker {o : SFTPUrl} {front back : Str}
    (split : o.pass = front ++ ("pubkey_identifier".toList ++ back))
    (first : ¬ "pubkey_identifier".toList <:+: front) :
    takePublicKey o = { o with publickeyFile := afterSeparator back, pass := [] } := by
  obtain ⟨found, skipped⟩ := marker_cut (by decide) first back
  rw [← split] at found skipped
  unfold takePublicKey
  rw [found]
  exact congrArg (fun key => { o with publickeyFile := key, pass := [] }) skipped

theorem takePrivateKey_none {o : SFTPUrl} (absent : ¬ "privkey_identifier".toList <:+: o.pass) :
    takePrivateKey o = o := by
  unfold takePrivateKey
  rw [find_none_iff.mpr absent]

theorem takePrivateKey_marker {o : SFTPUrl} {front back : Str}
    (split : o.pass = front ++ ("privkey_identifier".toList ++ back))
    (first : ¬ "privkey_identifier".toList <:+: front) :
    takePrivateKey o = { o with privatekeyFile := afterSeparator back, pass := [] } := by
  obtain ⟨found, skipped⟩ := marker_cut (by decide) first back
  rw [← split] at found skipped
  unfold takePrivateKey
  rw [found]
  exact congrArg (fun key => { o with privatekeyFile := key, pass := [] }) skipped

theorem takePassphrase_none {o : SFTPUrl} (absent : ¬ "key_passphrase".toList <:+: o.privatekeyFile) :
    takePassphrase o = o := by
  unfold takePassphrase
  rw [find_none_iff.mpr absent]
  exact ite_self o

theorem takePassphrase_marker {o : SFTPUrl} {key passphrase : Str}
    (split : o.privatekeyFile = key ++ ("key_passphrase".toList ++ passphrase))
    (first : ¬ "key_passphrase".toList <:+: key) :
    takePassphrase o = { o with privatekeyPass := passphrase, privatekeyFile := key } := by
  have found := find_sharp (show Sharp "key_passphrase".toList by decide) first passphrase
  have some : key ++ ("key_passphrase".toList ++ passphrase) ≠ [] := by simp
  unfold takePassphrase
  rw [split, if_neg some, found]
  simp

theorem takePass_frame (o : SFTPUrl) : (takePass o).host = o.host ∧ (takePass o).path = o.path := by
  unfold takePass
  split <;> exact ⟨rfl, rfl⟩

theorem takePublicKey_frame (o : SFTPUrl) :
    (takePublicKey o).host = o.host ∧ (takePublicKey o).path = o.path := by
  unfold takePublicKey
  split <;> exact ⟨rfl, rfl⟩

theorem takePrivateKey_frame (o : SFTPUrl) :
    (takePrivateKey o).host = o.host ∧ (takePrivateKey o).path = o.path := by
  unfold takePrivateKey
  split <;> exact ⟨rfl, rfl⟩

theorem takePassphrase_frame (o : SFTPUrl) :
    (takePassphrase o).host = o.host ∧ (takePassphrase o).path = o.path := by
  unfold takePassphrase
  split
  · exact ⟨rfl, rfl⟩
  · split <;> exact ⟨rfl, rfl⟩

/-- The credentials are split without touching the host and the path. -/
theorem parseCredentials_frame (o : SFTPUrl) :
    (parseCredentials o).host = o.host ∧ (parseCredentials o).path = o.path := by
  have passphrase := takePassphrase_frame (takePrivateKey (takePublicKey (takePass o)))
  have privateKey := takePrivateKey_frame (takePublicKey (takePass o))
  have publicKey := takePublicKey_frame (takePass o)
  have pass := takePass_frame o
  rw [parseCredentials_eq, passphrase.1, passphrase.2, privateKey.1, privateKey.2, publicKey.1, publicKey.2]
  exact pass

theorem takePassphrase_user (o : SFTPUrl) : (takePassphrase o).user = o.user := by
  unfold takePassphrase
  split
  · rfl
  · split <;> rfl

theorem parseSFTPUrl_plain {url : Str} (absent : '@' ∉ url) : parseSFTPUrl url = splitPath { host := url } := by
  have none : find "@".toList url = none := find_none_iff.mpr (by rwa [← singleton_infix_iff] at absent)
  unfold parseSFTPUrl
  by_cases empty : url = []
  · subst empty
    rfl
  · rw [if_neg empty, none]
    rfl

theorem parseSFTPUrl_at {info rest : Str} (absent : '@' ∉ info) :
    parseSFTPUrl (info ++ '@' :: rest) = splitPath (parseCredentials { user := info, host := rest }) := by
  have found : find "@".toList (info ++ '@' :: rest) = some info.length := find_char absent
  have front : (info ++ '@' :: rest).take info.length = info := List.take_left
  have back : (info ++ '@' :: rest).drop (info.length + 1) = rest := by simp
  unfold parseSFTPUrl
  rw [if_neg (by simp), found]
  simp only [front, back]
  by_cases empty : info = []
  · subst empty
    rfl
  · rw [if_neg empty]
    rfl

/-- What may stand behind the user of an SFTP URL. -/
inductive Credential
  | absent
  | password (pass : Str)
  | publicKey (file : Str)
  | privateKey (file : Str)
  | privateKeyWith (file passphrase : Str)
deriving DecidableEq, Repr

namespace Credential

def text : Credential → Str
  | absent => []
  | password pass => ':' :: pass
  | publicKey file => ':' :: ("pubkey_identifier".toList ++ ':' :: file)
  | privateKey file => ':' :: ("privkey_identifier".toList ++ ':' :: file)
  | privateKeyWith file passphrase =>
    ':' :: ("privkey_identifier".toList ++ ':' :: (file ++ ("key_passphrase".toList ++ passphrase)))

/-- The characters and markers that the parts of a credential must not contain. -/
def Plain : Credential → Prop
  | absent => True
  | password pass =>
    '@' ∉ pass ∧ ¬ "pubkey_identifier".toList <:+: pass ∧ ¬ "privkey_identifier".toList <:+: pass
  | publicKey file => '@' ∉ file
  | privateKey file =>
    '@' ∉ file ∧ ¬ "pubkey_identifier".toList <:+: file ∧ ¬ "key_passphrase".toList <:+: file
  | privateKeyWith file passphrase =>
    '@' ∉ file ∧ ¬ "pubkey_identifier".toList <:+: file ∧ ¬ "key_passphrase".toList <:+: file ∧
      '@' ∉ passphrase ∧ ¬ "pubkey_identifier".toList <:+: passphrase

/-- The credential in its own outputs, the other ones empty. -/
def outputs (user : Str) : Credential → SFTPUrl
  | absent => { user }
  | password pass => { user, pass }
  | publicKey file => { user, publickeyFile := file }
  | privateKey file => { user, privatekeyFile := file }
  | privateKeyWith file passphrase => { user, privatekeyFile := file, privatekeyPass := passphrase }

theorem text_plain {c : Credential} (plain : c.Plain) : '@' ∉ c.text := by
  cases c with
  | absent => simp [text]
  | password pass => simpa [text] using plain.1
  | publicKey file =>
    have absent : '@' ∉ file := plain
    simpa [text] using absent
  | privateKey file => simpa [text] using plain.1
  | privateKeyWith file passphrase => simpa [text] using And.intro plain.1 plain.2.2.2.1

/-- A public key cannot begin in the marker of a private key or in its separator. -/
theorem privateKey_text {back : Str} (absent : ¬ "pubkey_identifier".toList <:+: back) :
    ¬ "pubkey_identifier".toList <:+: "privkey_identifier".toList ++ ':' :: back := by
  have avoids : Avoids "pubkey_identifier".toList ":".toList := by decide
  have clean : ¬ "pubkey_identifier".toList <:+: "privkey_identifier".toList := by decide
  intro occurs
  have occurs : "pubkey_identifier".toList <:+: "privkey_identifier".toList ++ (":".toList ++ back) := occurs
  exact (avoids.infix_iff.mp occurs).elim clean absent

theorem parsed {c : Credential} (plain : c.Plain) {user rest : Str} (userPlain : ':' ∉ user) :
    parseCredentials { user := user ++ c.text, host := rest } = { c.outputs user with host := rest } := by
  rw [parseCredentials_eq]
  cases c with
  | absent =>
    rw [text, List.append_nil, takePass_none userPlain]
    rfl
  | password pass =>
    obtain ⟨_, noPublic, noPrivate⟩ := plain
    rw [takePass_colon userPlain rfl, takePublicKey_none noPublic, takePrivateKey_none noPrivate]
    rfl
  | publicKey file =>
    rw [takePass_colon userPlain rfl, @takePublicKey_marker _ [] _ rfl (by decide)]
    rfl
  | privateKey file =>
    obtain ⟨_, noPublic, noPassphrase⟩ := plain
    rw [takePass_colon userPlain rfl, takePublicKey_none (privateKey_text noPublic),
      @takePrivateKey_marker _ [] _ rfl (by decide), takePassphrase_none noPassphrase]
    rfl
  | privateKeyWith file passphrase =>
    obtain ⟨_, noPublic, noPassphrase, _, noPublicAfter⟩ := plain
    have avoids : Avoids "pubkey_identifier".toList "key_passphrase".toList := by decide
    have noPublic : ¬ "pubkey_identifier".toList <:+: file ++ ("key_passphrase".toList ++ passphrase) := by
      intro occurs
      exact (avoids.infix_iff.mp occurs).elim noPublic noPublicAfter
    rw [takePass_colon userPlain rfl, takePublicKey_none (privateKey_text noPublic),
      @takePrivateKey_marker _ [] _ rfl (by decide), takePassphrase_marker rfl noPassphrase]
    rfl

end Credential

/-- The parts of an SFTP URL, none of which holds a character or marker that ends it. -/
structure SFTPAddress where
  user : Str
  credential : Credential
  host : Str
  port : Option Str
  path : Str
  userPlain : '@' ∉ user ∧ ':' ∉ user
  credentialPlain : credential.Plain
  hostPlain : host ≠ [] ∧ '/' ∉ host ∧ ':' ∉ host
  portPlain : ∀ p, port = some p → p ≠ [] ∧ '/' ∉ p ∧ ':' ∉ p
  pathPlain : ∃ rest, path = '/' :: rest

namespace SFTPAddress

def hostPort (a : SFTPAddress) : Str :=
  match a.port with
  | none => a.host
  | some port => a.host ++ ':' :: port

def text (a : SFTPAddress) : Str := a.user ++ a.credential.text ++ '@' :: (a.hostPort ++ a.path)

theorem hostPort_plain (a : SFTPAddress) : a.hostPort ≠ [] ∧ '/' ∉ a.hostPort := by
  obtain ⟨some, plain, _⟩ := a.hostPlain
  unfold hostPort
  split
  next => exact ⟨some, plain⟩
  next port hp =>
    obtain ⟨_, portPlain, _⟩ := a.portPlain port hp
    simp [plain, portPlain]

theorem splitHostPort_hostPort (a : SFTPAddress) :
    splitHostPort a.hostPort = (a.host, a.port.getD "22".toList) := by
  obtain ⟨_, _, plain⟩ := a.hostPlain
  unfold hostPort
  cases hp : a.port with
  | none =>
    have none : rfind ":".toList a.host = none := rfind_none_iff.mpr plain
    simp only [splitHostPort, none]
    rfl
  | some port =>
    obtain ⟨_, _, portPlain⟩ := a.portPlain port hp
    have last : rfind [':'] (a.host ++ ':' :: port) = some a.host.length := rfind_last a.host portPlain
    simp [splitHostPort, last]

end SFTPAddress

open SFTPUploadDevice SFTPSaver in
/-- The parser and the choice of the port invert the format of the URL. -/
theorem parseSFTPUrl_inverts (a : SFTPAddress) :
    parseSFTPUrl a.text =
        (true, { a.credential.outputs a.user with host := a.hostPort, path := a.path }) ∧
      ∀ data saveLocation, ∀ device ∈ devices (parseSFTPUrl a.text).2 data saveLocation, ∀ resolve s,
        (startSFTPUpload device false resolve s).state.resolves =
          s.state.resolves ++ [(a.host, a.port.getD "22".toList)] := by
  obtain ⟨atPlain, colonPlain⟩ := a.userPlain
  obtain ⟨rest, hpath⟩ := a.pathPlain
  obtain ⟨some, slashPlain⟩ := a.hostPort_plain
  have plain : '@' ∉ a.user ++ a.credential.text := by
    simpa using And.intro atPlain (Credential.text_plain a.credentialPlain)
  have parsed : parseSFTPUrl a.text =
      (true, { a.credential.outputs a.user with host := a.hostPort, path := a.path }) := by
    rw [SFTPAddress.text, parseSFTPUrl_at plain, Credential.parsed a.credentialPlain colonPlain, hpath,
      splitPath_slash slashPlain rfl]
    simp [some]
  refine ⟨parsed, ?_⟩
  intro data saveLocation device mem resolve s
  rw [parsed] at mem
  obtain ⟨file, _, rfl⟩ := List.mem_map.mp mem
  simp only [startSFTPUpload]
  cases resolve <;> simp [a.splitHostPort_hostPort, Loop.modify, Loop.start, doWriteCallback, Loop.post]

/-- A private key with a passphrase, and a port. -/
def keyed : SFTPAddress where
  user := ['u']
  credential := .privateKeyWith "k".toList "s:p".toList
  host := ['h']
  port := some ['2']
  path := "/d/f@".toList
  userPlain := by decide
  credentialPlain := ⟨by decide, by decide, by decide, by decide, by decide⟩
  hostPlain := by decide
  portPlain := by
    rintro p ⟨rfl⟩
    decide
  pathPlain := ⟨_, rfl⟩

theorem parseSFTPUrl_inverts_keyed :
    parseSFTPUrl "u:privkey_identifier:kkey_passphrases:p@h:2/d/f@".toList =
      (true, {
        user := ['u'], privatekeyFile := ['k'], privatekeyPass := "s:p".toList
        host := "h:2".toList, path := "/d/f@".toList }) :=
  (parseSFTPUrl_inverts keyed).1

theorem splitPath_short (o : SFTPUrl) : (splitPath o).2.host.length + (splitPath o).2.path.length ≤
    o.host.length + o.path.length := by
  unfold splitPath
  split
  next => exact Nat.le_refl _
  next index found => simp; omega

/-- A host and a path without credentials come back if and only if the path has no `@`. -/
theorem parseSFTPUrl_host_iff {host path : Str} (hostPlain : host ≠ [] ∧ '/' ∉ host ∧ '@' ∉ host)
    (slash : path.head? = some '/') :
    parseSFTPUrl (host ++ path) = (true, { host, path }) ↔ '@' ∉ path := by
  obtain ⟨some, slashPlain, atPlain⟩ := hostPlain
  obtain ⟨rest, rfl⟩ : ∃ rest, path = '/' :: rest := List.head?_eq_some_iff.mp slash
  constructor
  · intro parsed mem
    obtain ⟨front, back, split, absent⟩ := List.eq_append_cons_of_mem mem
    have infoPlain : '@' ∉ host ++ front := by simp [atPlain, absent]
    rw [split, ← List.append_assoc, parseSFTPUrl_at infoPlain] at parsed
    have short := splitPath_short (parseCredentials { user := host ++ front, host := back })
    have kept := parseCredentials_frame { user := host ++ front, host := back }
    rw [parsed, kept.1, kept.2] at short
    have length := congrArg List.length split
    simp at short length
    omega
  · intro absent
    have plain : '@' ∉ host ++ '/' :: rest := by simpa [atPlain] using absent
    rw [parseSFTPUrl_plain plain, splitPath_slash slashPlain rfl]
    simp [some]

theorem parseSFTPUrl_host_example :
    parseSFTPUrl ("h".toList ++ "/a:b".toList) = (true, { host := "h".toList, path := "/a:b".toList }) :=
  (parseSFTPUrl_host_iff (by decide) rfl).mpr (by decide)

/-- An `@` in the path moves the host. -/
theorem path_moves_host :
    ∃ host path : Str, (host ≠ [] ∧ '/' ∉ host ∧ '@' ∉ host) ∧ path.head? = some '/' ∧
      parseSFTPUrl (host ++ path) ≠ (true, { host, path }) ∧
      (parseSFTPUrl (host ++ path)).2.host = "evil.example".toList :=
  ⟨"good.example".toList, "/files/a@evil.example/b".toList, by decide, rfl, by decide, by decide⟩

end AsyncIOManager
