import AsyncIOManager.Carried
import AsyncIOManager.HTTPAddress
import AsyncIOManager.HTTPDownload
import AsyncIOManager.HTTPRequest

namespace AsyncIOManager

open Reactor Text HTTP

namespace HTTPDevice

/-- The authority of the URL; the default port is not written. -/
def authority (self : HTTPDevice) : Str :=
  if self.httpPort = "443".toList then self.httpHost else self.httpHost ++ ':' :: self.httpPort

def userAgent : Str := "GeniusAI/1.0 (SGNS AsyncIO Manager)".toList

/-- The request that a URL asks for. -/
def request (self : HTTPDevice) : HTTP.Request where
  method := "GET".toList
  target := self.httpPath
  fields := [("Host".toList, self.authority), ("User-Agent".toList, userAgent), ("Connection".toList, "close".toList)]

/-- The text that `StartHTTPGet` writes is sent and read as this request, and neither a body nor anything
else follows. -/
def SaysURL (self : HTTPDevice) : Prop :=
  (sent self.getRequest).bind HTTP.read = some (self.request, []) ∧ self.request.hasBody = false

theorem sent_some {request text : Str} (h : sent request = some text) : text = request ∧ request.length ≤ tlsRecord := by
  unfold sent at h
  split at h
  next short => exact ⟨(Option.some.inj h).symm, short⟩
  next => cases h

theorem SaysURL.read {self : HTTPDevice} (h : self.SaysURL) :
    HTTP.read self.getRequest = some (self.request, []) ∧ self.getRequest.length ≤ tlsRecord := by
  obtain ⟨text, whole, read⟩ := Option.bind_eq_some_iff.mp h.1
  obtain ⟨rfl, short⟩ := sent_some whole
  exact ⟨read, short⟩

/-- The fixed texts of a request have 93 characters. -/
theorem getRequest_length (self : HTTPDevice) :
    self.getRequest.length = self.httpPath.length + self.httpHost.length + 93 := by
  simp [getRequest]
  omega

def startLine (self : HTTPDevice) : Str := "GET".toList ++ ' ' :: (self.httpPath ++ ' ' :: "HTTP/1.1".toList)

def headerLines (self : HTTPDevice) : List Str :=
  ["Host".toList ++ ':' :: ' ' :: self.httpHost, "User-Agent".toList ++ ':' :: ' ' :: userAgent,
    "Connection".toList ++ ':' :: " close".toList]

theorem getRequest_lines (self : HTTPDevice) :
    self.getRequest = self.startLine ++ self.headerLines.flatMap (crlf ++ ·) ++ (crlf ++ crlf ++ []) := by
  -- The fixed texts are cut where a line ends and where a field has its colon.
  have written : self.getRequest =
      "GET".toList ++ [' '] ++ self.httpPath ++
        (' ' :: "HTTP/1.1".toList ++ (crlf ++ "Host".toList ++ [':', ' '])) ++ self.httpHost ++
        (crlf ++ ("User-Agent".toList ++ ':' :: ' ' :: userAgent) ++
          (crlf ++ ("Connection".toList ++ ':' :: " close".toList)) ++ (crlf ++ crlf)) := rfl
  rw [written]
  simp only [startLine, headerLines, List.flatMap_cons, List.flatMap_nil, List.append_assoc, List.cons_append,
    List.nil_append, List.append_nil]

theorem request_hasBody (self : HTTPDevice) : self.request.hasBody = false := by
  simp [request, Request.hasBody, Request.values]

theorem request_host (self : HTTPDevice) : self.request.values "host".toList = [self.authority] := by
  simp [request, Request.values]

theorem fieldLines_headerLines (self : HTTPDevice) :
    fieldLines self.headerLines =
      if (trim self.httpHost).all fieldChar = true then
        some [("Host".toList, trim self.httpHost), ("User-Agent".toList, userAgent),
          ("Connection".toList, "close".toList)]
      else none := by
  have host : fieldLine ("Host".toList ++ ':' :: ' ' :: self.httpHost) =
      if (trim self.httpHost).all fieldChar = true then some ("Host".toList, trim self.httpHost) else none := by
    rw [fieldLine_text (by decide), trim_blank (by decide)]
  have agent : fieldLine ("User-Agent".toList ++ ':' :: ' ' :: userAgent) = some ("User-Agent".toList, userAgent) := rfl
  have close : fieldLine ("Connection".toList ++ ':' :: " close".toList) =
      some ("Connection".toList, "close".toList) := rfl
  rw [headerLines, fieldLines, fieldLines, fieldLines, fieldLines, host, agent, close]
  split <;> rfl

theorem mem_request_fields (self : HTTPDevice) : ("Host".toList, self.authority) ∈ self.request.fields :=
  List.mem_cons_self

/-- What `StartHTTPGet` writes for a path and a host within one line is read line by line. -/
theorem read_getRequest {self : HTTPDevice} (path : '\r' ∉ self.httpPath) (host : '\r' ∉ self.httpHost) :
    HTTP.read self.getRequest = (readLines self.startLine self.headerLines).map fun r => (r, []) := by
  have start : '\r' ∉ self.startLine := by simp [startLine, path]
  have fixed : ∀ l ∈ self.headerLines.tail, l ≠ [] ∧ '\r' ∉ l := by
    rw [headerLines, List.tail_cons]
    decide
  have lines : ∀ l ∈ self.headerLines, l ≠ [] ∧ '\r' ∉ l := by
    intro l mem
    rcases List.mem_cons.mp mem with rfl | later
    · simp [host]
    · exact fixed l later
  rw [getRequest_lines]
  exact read_lines start lines []

theorem authority_length (self : HTTPDevice) (other : self.httpPort ≠ "443".toList) :
    self.httpHost.length < self.authority.length := by
  rw [authority, if_neg other]
  simp

theorem SaysURL.printed {self : HTTPDevice} (h : self.SaysURL) :
    originForm self.httpPath = true ∧ '\r' ∉ self.httpHost ∧ hostValue self.authority = true := by
  obtain ⟨target, values, hosts⟩ := read_sound h.read.1
  have value := List.all_eq_true.mp (values _ self.mem_request_fields)
  refine ⟨target, ?_, hosts _ (by rw [request_host]; exact List.mem_singleton_self _)⟩
  intro mem
  have inside : '\r' ∈ self.authority := by
    unfold authority
    split
    next => exact mem
    next => exact List.mem_append_left _ mem
  exact absurd (value _ inside) (by decide)

/-- The port is not written, so it has to be the default. -/
theorem SaysURL.port {self : HTTPDevice} (h : self.SaysURL) : self.httpPort = "443".toList := by
  obtain ⟨target, host, _⟩ := h.printed
  have path : '\r' ∉ self.httpPath := fun mem => absurd (originForm_printable target _ mem) (by decide)
  have read := h.read.1
  rw [read_getRequest path host] at read
  obtain ⟨r, lines, same⟩ := Option.map_eq_some_iff.mp read
  cases same
  have fields := (readLines_some lines).2.1
  rw [fieldLines_headerLines] at fields
  split at fields
  next =>
    have value : trim self.httpHost = self.authority := by
      simp only [request, Option.some.injEq, List.cons.injEq, Prod.mk.injEq, true_and, and_true] at fields
      exact fields
    by_contra other
    have short := trim_length_le self.httpHost
    have long := self.authority_length other
    rw [value] at short
    omega
  next => cases fields

theorem saysURL_of_printed {self : HTTPDevice} (target : originForm self.httpPath = true)
    (plain : ':' ∉ self.httpHost) (host : uriHost self.httpHost = true) (port : self.httpPort = "443".toList)
    (short : self.getRequest.length ≤ tlsRecord) : self.SaysURL := by
  have pathSeen := originForm_printable target
  have hostSeen := uriHost_printable plain host
  have pathLine : '\r' ∉ self.httpPath := fun mem => absurd (pathSeen _ mem) (by decide)
  have hostLine : '\r' ∉ self.httpHost := fun mem => absurd (hostSeen _ mem) (by decide)
  have space : ' ' ∉ self.httpPath := fun mem => absurd (pathSeen _ mem) (by decide)
  have authority : self.authority = self.httpHost := if_pos port
  have start : requestLine self.startLine = some ("GET".toList, self.httpPath) := by
    rw [startLine, requestLine_text (by decide) (by decide) space, if_pos target]
  have fields : fieldLines self.headerLines = some self.request.fields := by
    have letters : self.httpHost.all fieldChar = true :=
      List.all_eq_true.mpr fun c mem => (hostSeen c mem).fieldChar
    rw [fieldLines_headerLines, trim_printable hostSeen, if_pos letters, request, authority]
  refine ⟨?_, self.request_hasBody⟩
  have valid : (self.request.values "host".toList).length = 1 ∧
      (self.request.values "host".toList).all hostValue = true := by
    rw [request_host, authority]
    simp [hostValue_iff plain, host]
  have lines : readLines self.startLine self.headerLines = some self.request := by
    rw [readLines, start, fields]
    exact if_pos valid
  rw [sent, if_pos short, Option.bind_some, read_getRequest pathLine hostLine, lines]
  rfl

/-- A handler works for the device, and what it writes is the device's request. -/
def Handler.Asks (d : HTTPDevice) (h : Handler) : Prop :=
  (∀ self, h.device = some self → self = d) ∧ ∀ self text, h = .write self text → text = sent d.getRequest

abbrev Asking (d : HTTPDevice) (s : Download) : Prop := Carries (fun _ h => h.Asks d) (fun _ => True) s

theorem asks_of_unowned {d : HTTPDevice} {h : Handler} (unowned : h.device = none) : h.Asks d := by
  refine ⟨?_, ?_⟩
  · intro self same
    rw [unowned] at same
    cases same
  · rintro self text rfl
    cases unowned

/-- A handler that works for the device only starts operations that do so too. -/
theorem Handler.Asks.next {d : HTTPDevice} {h x : Handler} (own : h.Asks d) (mem : x ∈ h.next) : x.Asks d := by
  refine ⟨?_, ?_⟩
  · intro self same
    rcases Handler.next_device mem with kept | none
    · exact own.1 self (kept.symm.trans same)
    · rw [none] at same
      cases same
  · rintro self text rfl
    cases h with
    | handshake device =>
      obtain rfl := own.1 device rfl
      rcases List.mem_pair.mp mem with same | same
      · cases same
      · cases same
        rfl
    | _ => simp [Handler.next] at mem

theorem loadASync_asking {filename : Str} {parse save : Bool} {resolve : Resolve} {sni : Option Str} {d : Download}
    (load : HTTPLoader.loadASync filename parse save resolve sni = .ok d) :
    Asking (HTTPLoader.device filename parse save) d := by
  have start : Asking (HTTPLoader.device filename parse save) idle :=
    ⟨fun _ mem => absurd mem List.not_mem_nil, trivial⟩
  rcases loadASync_cases load with ⟨e, rfl⟩ | ⟨_, rfl⟩
  · exact start.post (asks_of_unowned rfl)
  · have armed : Asking (HTTPLoader.device filename parse save) (armDeadline .connect idle) :=
      start.start (asks_of_unowned rfl)
    refine armed.start ⟨?_, ?_⟩
    · rintro _ ⟨⟩
      rfl
    · rintro _ _ ⟨⟩

/-- Whatever a load writes in a run is the request of its device. -/
theorem written_request {filename : Str} {parse save : Bool} {resolve : Resolve} {sni : Option Str} {d s : Download}
    (load : HTTPLoader.loadASync filename parse save resolve sni = .ok d) (reach : Reaches machine.step Free d s)
    {x : Entry Handler Ec} (mem : x ∈ s.pool) {self : HTTPDevice} {text : Option Str} (write : x.handler = .write self text) :
    text = sent (HTTPLoader.device filename parse save).getRequest := by
  have asking : Asking (HTTPLoader.device filename parse save) s := by
    refine Carries.reaches ?_ (fun a => a.elim) reach (loadASync_asking load)
    intro k e o s t own h run
    cases Option.some.inj run
    exact run_carries h (fun x mem => own.next mem) trivial
  exact (asking.pool x mem).2 self text write

/-- The request of an accepted URL says what the URL says if and only if the path is the target of a request,
the host is one that a URI can name, the port is the default, and one record holds it; no load writes
anything else. -/
theorem url_requested_iff {url : Str} (accepted : AcceptsHTTP url) (parse save : Bool) :
    let base := (getURLComponents url).2.base
    let o := (parseHTTPUrl base).2
    ((HTTPLoader.device base parse save).SaysURL ↔
      originForm o.path = true ∧ uriHost o.host = true ∧ o.port = "443".toList ∧
        o.path.length + o.host.length + 93 ≤ tlsRecord) ∧
    ∀ resolve sni d s, HTTPLoader.loadASync base parse save resolve sni = .ok d → Reaches machine.step Free d s →
      ∀ x ∈ s.pool, ∀ self text, x.handler = .write self text →
        text = sent (HTTPLoader.device base parse save).getRequest := by
  obtain ⟨a, rfl⟩ := HTTPAddress.of_accepted accepted
  obtain ⟨_, _, parsed⟩ := a.parsed
  have plain : ':' ∉ (HTTPLoader.device (getURLComponents a.text).2.base parse save).httpHost := by
    rw [HTTPLoader.device, parsed]
    exact a.hostPlain.2
  refine ⟨⟨?_, ?_⟩, fun _ _ _ _ load reach _ mem _ _ write => written_request load reach mem write⟩
  · intro faithful
    obtain ⟨target, _, host⟩ := faithful.printed
    have port := faithful.port
    rw [authority, if_pos port, hostValue_iff plain] at host
    have short := faithful.read.2
    rw [getRequest_length] at short
    exact ⟨target, host, port, short⟩
  · rintro ⟨target, host, port, short⟩
    refine saysURL_of_printed target plain host port ?_
    rw [getRequest_length]
    exact short

theorem url_requested_iff_page :
    (HTTPLoader.device "h/f?x=%2F".toList false false).SaysURL :=
  (url_requested_iff (show AcceptsHTTP "https://h/f?x=%2F".toList by decide) false false).1.mpr
    ⟨by decide, by decide, by decide, by decide⟩

/-- The port of the URL is missing from the request, and a URL can bring a request of its own. -/
theorem port_lost_and_request_added :
    (AcceptsHTTP "https://h:8443/f".toList ∧ ¬ (HTTPLoader.device "h:8443/f".toList false false).SaysURL) ∧
    AcceptsHTTP "https://h/f HTTP/1.1\r\nHost: h\r\n\r\nGET /g".toList ∧
    (sent (HTTPLoader.device "h/f HTTP/1.1\r\nHost: h\r\n\r\nGET /g".toList false false).getRequest).bind HTTP.read =
      some (⟨"GET".toList, "/f".toList, [("Host".toList, "h".toList)]⟩,
        (⟨"h".toList, "/g".toList, "443".toList, false, false⟩ : HTTPDevice).getRequest) := by
  refine ⟨⟨by decide, fun faithful => absurd faithful.port (by decide)⟩, by decide, ?_⟩
  rw [sent, if_pos (by rw [getRequest_length]; decide), Option.bind_some]
  decide

end HTTPDevice

end AsyncIOManager
