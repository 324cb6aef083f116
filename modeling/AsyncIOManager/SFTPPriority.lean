import AsyncIOManager.SFTPAddress
import AsyncIOManager.SFTPSaveFile

namespace AsyncIOManager

open Text SFTPSaver

theorem afterSeparator_suffix (text : Str) : afterSeparator text <:+ text := by
  unfold afterSeparator
  split
  · exact List.suffix_cons _ _
  · exact List.suffix_rfl

/-- The key path of an entry, from what follows its marker. -/
def keyPath (after : Str) : Str :=
  upTo "pubkey_identifier".toList (upTo "key_passphrase".toList (afterSeparator after))

/-- The credential field has an entry for a private key with the key path `key`. -/
def PrivateKeyEntry (field key : Str) : Prop :=
  ∃ front after, field = front ++ ("privkey_identifier".toList ++ after) ∧ keyPath after = key

/-- No public key, and the first entry for a private key has a key path. -/
def PrivateKeyOnly (field : Str) : Prop :=
  ¬ "pubkey_identifier".toList <:+: field ∧
    ∀ index, find "privkey_identifier".toList field = some index → keyPath (field.drop (index + 18)) ≠ []

theorem splitPath_frame (o : SFTPUrl) : ∃ host path, (splitPath o).2 = { o with host, path } := by
  unfold splitPath
  split
  · exact ⟨o.host, o.path, rfl⟩
  · exact ⟨_, _, rfl⟩

theorem takePassphrase_upTo (o : SFTPUrl) :
    (takePassphrase o).privatekeyFile = upTo "key_passphrase".toList o.privatekeyFile := by
  unfold takePassphrase
  split
  next empty => simp [empty, upTo, find]
  next some =>
    unfold upTo
    cases find "key_passphrase".toList o.privatekeyFile <;> rfl

/-- A public key that comes first hides the private key. -/
theorem parseCredentials_public {user field : Str} (userPlain : ':' ∉ user)
    (mem : "pubkey_identifier".toList <:+: field) (rest : Str) :
    (parseCredentials { user := user ++ ':' :: field, host := rest }).privatekeyFile = [] := by
  obtain ⟨front, back, split, first⟩ := first_occurrence mem (by decide)
  rw [parseCredentials_eq, takePass_colon userPlain rfl, takePublicKey_marker split first,
    takePrivateKey_none (show ¬ "privkey_identifier".toList <:+: [] by decide), takePassphrase_upTo]
  rfl

theorem parseCredentials_private {user field front after : Str} (userPlain : ':' ∉ user)
    (absent : ¬ "pubkey_identifier".toList <:+: field)
    (split : field = front ++ ("privkey_identifier".toList ++ after))
    (first : ¬ "privkey_identifier".toList <:+: front) (rest : Str) :
    (parseCredentials { user := user ++ ':' :: field, host := rest }).privatekeyFile = keyPath after ∧
      (parseCredentials { user := user ++ ':' :: field, host := rest }).user = user := by
  have within : upTo "key_passphrase".toList (afterSeparator after) <:+: field := by
    have key := (upTo_isPrefix "key_passphrase".toList (afterSeparator after)).isInfix
    have back := ((afterSeparator_suffix after).trans (List.suffix_append _ _)).trans
      (List.suffix_append front ("privkey_identifier".toList ++ after))
    rw [split]
    exact key.trans back.isInfix
  have clean : keyPath after = upTo "key_passphrase".toList (afterSeparator after) :=
    upTo_none fun occurs => absent (occurs.trans within)
  rw [parseCredentials_eq, takePass_colon userPlain rfl, takePublicKey_none absent,
    takePrivateKey_marker split first, takePassphrase_upTo, takePassphrase_user, clean]
  exact ⟨rfl, rfl⟩

/-- Both ways to save authenticate with the private key of `o`. -/
structure PrivateKeyUsed (user : Str) (o : SFTPUrl) : Prop where
  some : o.privatekeyFile ≠ []
  async : ∀ data saveLocation, ∀ device ∈ devices o data saveLocation, ∀ rc,
    device.userauth rc = .userauthPublickey user o.privatekeyFile o.privatekeyPass rc
  sync : ∀ rc, saveFileAuth o rc = .userauthPublickey user o.privatekeyFile o.privatekeyPass rc

theorem privateKeyUsed_of_some {o : SFTPUrl} (some : o.privatekeyFile ≠ []) : PrivateKeyUsed o.user o := by
  refine ⟨some, ?_, fun rc => if_pos some⟩
  intro data saveLocation device mem rc
  obtain ⟨file, _, rfl⟩ := List.mem_map.mp mem
  exact if_pos some

/-- A private key is used if and only if there is no public key beside it. -/
theorem private_key_priority_iff {user field rest : Str} (userPlain : '@' ∉ user ∧ ':' ∉ user)
    (fieldPlain : '@' ∉ field) (entry : ∃ key, key ≠ [] ∧ PrivateKeyEntry field key) :
    PrivateKeyUsed user (parseSFTPUrl (user ++ ':' :: field ++ '@' :: rest)).2 ↔ PrivateKeyOnly field := by
  obtain ⟨atPlain, colonPlain⟩ := userPlain
  have plain : '@' ∉ user ++ ':' :: field := by simp [atPlain, fieldPlain]
  rw [parseSFTPUrl_at plain]
  obtain ⟨host, path, framed⟩ :=
    splitPath_frame (parseCredentials { user := user ++ ':' :: field, host := rest })
  rw [framed]
  by_cases hidden : "pubkey_identifier".toList <:+: field
  · have none := parseCredentials_public colonPlain hidden rest
    exact iff_of_false (fun used => used.some none) fun only => only.1 hidden
  · obtain ⟨_, _, _, later, hentry, _⟩ := entry
    have mem : "privkey_identifier".toList <:+: field :=
      hentry ▸ ⟨_, later, by rw [List.append_assoc]⟩
    obtain ⟨front, after, split, first⟩ := first_occurrence mem (by decide)
    obtain ⟨key, sameUser⟩ := parseCredentials_private colonPlain hidden split first rest
    have found : find "privkey_identifier".toList field = some front.length :=
      split ▸ find_sharp (by decide) first _
    have dropped : field.drop (front.length + 18) = after := by
      rw [split, ← List.append_assoc]
      exact List.drop_left' (by simp)
    constructor
    · intro used
      refine ⟨hidden, fun index here => ?_⟩
      obtain rfl := Option.some.inj (found.symm.trans here)
      rw [dropped, ← key]
      exact used.some
    · intro only
      have some := only.2 front.length found
      rw [dropped, ← key] at some
      have used := privateKeyUsed_of_some
        (o := { parseCredentials { user := user ++ ':' :: field, host := rest } with host, path }) some
      rwa [sameUser] at used

theorem private_key_alone_used :
    PrivateKeyUsed "u".toList
      (parseSFTPUrl ("u".toList ++ ':' :: "privkey_identifier:k".toList ++ '@' :: "h/p".toList)).2 := by
  refine (private_key_priority_iff (by decide) (by decide) ⟨['k'], by decide, [], [':', 'k'], rfl, by decide⟩).mpr ?_
  refine ⟨by decide, fun index found => ?_⟩
  obtain rfl := Option.some.inj found
  decide

/-- A public key entry hides the private key, whichever of the two comes first. -/
theorem public_key_wins :
    ∃ field : Str, '@' ∉ field ∧ (∃ key, key ≠ [] ∧ PrivateKeyEntry field key) ∧
      (parseSFTPUrl ("u".toList ++ ':' :: field ++ '@' :: "h/p".toList)).1 = true ∧
      ¬ PrivateKeyUsed "u".toList (parseSFTPUrl ("u".toList ++ ':' :: field ++ '@' :: "h/p".toList)).2 := by
  refine ⟨"privkey_identifier:k_pubkey_identifier:q".toList, by decide, ?_, by decide, fun used => ?_⟩
  · exact ⟨"k_".toList, by decide, [], ":k_pubkey_identifier:q".toList, rfl, by decide⟩
  · exact used.some (by decide)

end AsyncIOManager
