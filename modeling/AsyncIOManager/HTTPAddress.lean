import AsyncIOManager.URLStringUtil

namespace AsyncIOManager

open Text

/-- Both calls with which a loader takes a URL apart succeed. -/
def AcceptsHTTP (url : Str) : Prop :=
  (getURLComponents url).1 = true ∧ (parseHTTPUrl (getURLComponents url).2.base).1 = true

instance (url : Str) : Decidable (AcceptsHTTP url) := inferInstanceAs (Decidable (_ ∧ _))

/-- The parts of a URL of a web server. -/
structure HTTPAddress where
  scheme : Str
  host : Str
  port : Option Str
  path : Str
  schemeEnds : ∀ i, "://".toList <+: (scheme ++ "://".toList).drop i → i = scheme.length
  hostSome : host ≠ []
  hostPlain : '/' ∉ host ∧ ':' ∉ host
  portPlain : ∀ p, port = some p → p ≠ [] ∧ '/' ∉ p
  pathStarts : path.head? = some '/'

/-- A URL put together from what the two calls give; the port is left out where none was given. -/
def renderHTTPUrl (pre : Str) (o : HTTPUrl) (explicit : Bool) : Str :=
  pre ++ ("://".toList ++ (o.host ++ (if explicit then ':' :: o.port else []) ++ o.path))

namespace HTTPAddress

def portText : Option Str → Str
  | none => []
  | some port => ':' :: port

def authority (a : HTTPAddress) : Str := a.host ++ portText a.port

def text (a : HTTPAddress) : Str := a.scheme ++ ("://".toList ++ (a.authority ++ a.path))

theorem scheme_first (a : HTTPAddress) : ¬ "://".toList <:+: a.scheme :=
  (show Sharp "://".toList by decide).only_end_iff.mp a.schemeEnds

theorem parsed_url (a : HTTPAddress) :
    parseHTTPUrl (a.authority ++ a.path) = (true, ⟨a.host, a.path, a.port.getD "443".toList⟩) := by
  obtain ⟨rest, path⟩ : ∃ rest, a.path = '/' :: rest := List.head?_eq_some_iff.mp a.pathStarts
  obtain ⟨hostSlash, hostColon⟩ := a.hostPlain
  rw [path, authority]
  cases port : a.port with
  | none =>
    rw [portText, List.append_nil]
    exact parseHTTPUrl_host a.hostSome hostSlash hostColon rest
  | some p =>
    obtain ⟨some, portSlash⟩ := a.portPlain p port
    rw [portText, parseHTTPUrl_port hostSlash hostColon portSlash]
    simp [some, a.hostSome]

/-- What the two calls make of a URL of this form. -/
theorem parsed (a : HTTPAddress) :
    (getURLComponents a.text).1 = true ∧ (getURLComponents a.text).2.pre = a.scheme ∧
      parseHTTPUrl (getURLComponents a.text).2.base = (true, ⟨a.host, a.path, a.port.getD "443".toList⟩) := by
  obtain ⟨accepted, pre, base⟩ := getURLComponents_split (a.authority ++ a.path) a.scheme_first
  refine ⟨accepted, pre, ?_⟩
  have split : (getURLComponents a.text).2.base = a.authority ++ a.path := base
  rw [split]
  exact a.parsed_url

theorem accepted (a : HTTPAddress) : AcceptsHTTP a.text := by
  obtain ⟨accepted, _, parsed⟩ := a.parsed
  exact ⟨accepted, by rw [parsed]⟩

theorem portText_injective {p q : Option Str} (same : portText p = portText q) : p = q := by
  cases p with
  | none =>
    cases q with
    | none => rfl
    | some q => cases same
  | some p =>
    cases q with
    | none => cases same
    | some q => rw [(List.cons.inj same).2]

/-- A URL is made of its parts in one way. -/
theorem text_injective {a b : HTTPAddress} (same : a.text = b.text) : a = b := by
  obtain ⟨_, schemeA, urlA⟩ := a.parsed
  obtain ⟨_, schemeB, urlB⟩ := b.parsed
  rw [same] at schemeA urlA
  have scheme : a.scheme = b.scheme := schemeA.symm.trans schemeB
  have url := urlA.symm.trans urlB
  simp only [Prod.mk.injEq, HTTPUrl.mk.injEq, true_and] at url
  obtain ⟨host, path, _⟩ := url
  have port : a.port = b.port := by
    refine portText_injective ?_
    rw [text, text, scheme, authority, authority, host, path] at same
    simpa using same
  cases a
  cases b
  simp only [HTTPAddress.mk.injEq] at *
  exact ⟨scheme, host, port, path⟩

/-- What `parseHTTPUrl` accepts is a host, perhaps a port, and a path. -/
theorem parts_of_accepted {url : Str} (accepted : (parseHTTPUrl url).1 = true) :
    ∃ host port rest, url = host ++ portText port ++ '/' :: rest ∧ host ≠ [] ∧ ('/' ∉ host ∧ ':' ∉ host) ∧
      ∀ p, port = some p → p ≠ [] ∧ '/' ∉ p := by
  by_cases slash : '/' ∈ url
  · obtain ⟨front, rest, rfl, plain⟩ := List.eq_append_cons_of_mem slash
    by_cases colon : ':' ∈ front
    · obtain ⟨host, port, rfl, noColon⟩ := List.eq_append_cons_of_mem colon
      have hostSlash : '/' ∉ host := fun mem => plain (List.mem_append_left _ mem)
      have portSlash : '/' ∉ port := fun mem => plain (List.mem_append_right _ (List.mem_cons_of_mem _ mem))
      rw [parseHTTPUrl_port hostSlash noColon portSlash] at accepted
      obtain ⟨portSome, hostSome⟩ := of_decide_eq_true accepted
      refine ⟨host, some port, rest, rfl, hostSome, ⟨hostSlash, noColon⟩, ?_⟩
      rintro p ⟨⟩
      exact ⟨portSome, portSlash⟩
    · have hostSome : front ≠ [] := by
        rintro rfl
        rw [List.nil_append, parseHTTPUrl_empty] at accepted
        cases accepted
      refine ⟨front, none, rest, by simp [portText], hostSome, ⟨plain, colon⟩, ?_⟩
      rintro p ⟨⟩
  · rw [parseHTTPUrl_none slash] at accepted
    cases accepted

/-- Every URL that is accepted is of this form. -/
theorem of_accepted {url : Str} (accepted : AcceptsHTTP url) : ∃ a : HTTPAddress, a.text = url := by
  obtain ⟨split, parsed⟩ := accepted
  have occurs : "://".toList <:+: url := by
    by_contra absent
    rw [getURLComponents_none absent] at split
    cases split
  obtain ⟨scheme, base, rfl, first⟩ := first_occurrence occurs (by decide)
  obtain ⟨_, _, same⟩ := getURLComponents_split base first
  rw [same] at parsed
  obtain ⟨host, port, rest, rfl, hostSome, hostPlain, portPlain⟩ := parts_of_accepted parsed
  have ends := (show Sharp "://".toList by decide).only_end_iff.mpr first
  exact ⟨⟨scheme, host, port, '/' :: rest, ends, hostSome, hostPlain, portPlain, rfl⟩, rfl⟩

end HTTPAddress

/-- The URLs that are accepted are those of the form, each in one way; the calls give its parts,
and the parts give the URL back. -/
theorem http_url_grammar :
    (∀ url, AcceptsHTTP url ↔ ∃! a : HTTPAddress, a.text = url) ∧
    ∀ a : HTTPAddress, (getURLComponents a.text).2.pre = a.scheme ∧
      (parseHTTPUrl (getURLComponents a.text).2.base).2 = ⟨a.host, a.path, a.port.getD "443".toList⟩ ∧
      renderHTTPUrl (getURLComponents a.text).2.pre (parseHTTPUrl (getURLComponents a.text).2.base).2
        a.port.isSome = a.text := by
  constructor
  · intro url
    constructor
    · intro accepted
      obtain ⟨a, text⟩ := HTTPAddress.of_accepted accepted
      exact ⟨a, text, fun b same => HTTPAddress.text_injective (same.trans text.symm)⟩
    · rintro ⟨a, rfl, _⟩
      exact a.accepted
  · intro a
    obtain ⟨_, pre, parsed⟩ := a.parsed
    refine ⟨pre, by rw [parsed], ?_⟩
    rw [pre, parsed, renderHTTPUrl, HTTPAddress.text, HTTPAddress.authority]
    cases port : a.port with
    | none => rfl
    | some p => rfl

end AsyncIOManager
