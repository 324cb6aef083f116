import AsyncIOManager.Carried
import AsyncIOManager.IPFSDiscovery
import AsyncIOManager.URLStringUtil

namespace AsyncIOManager

open Reactor

namespace IPFSDevice

variable {lib : Libp2p} {published : CID → Option UnixFSContent} {s t : Serving} {i : Nat} {q : Request}

/-- The load that a handler belongs to. -/
def Handler.load : Handler → Nat
  | findProviders i _ => i
  | retry i _ => i
  | requestContent i _ _ _ => i
  | handleRead i _ => i

def requested (d : Device) (i : Nat) : Option Request := d.loads[i]?.map Load.request

/-- What is published under the CID of a load. -/
def wanted (published : CID → Option UnixFSContent) (d : Device) (i : Nat) : Option UnixFSContent :=
  (requested d i).bind fun q => published q.cid

/-- An outcome with which the load of a published content goes on. -/
def Ec.finds (u : UnixFSContent) : Ec → Bool
  | providers none => false
  | content res => res = some u
  | _ => true

/-- Bitswap returns what is published under a CID: no search for its providers fails, and its
content is converted. -/
def Returns (lib : Libp2p) (published : CID → Option UnixFSContent) (s : Serving)
    (l : Label Ec Turn (Request × Turn)) : Prop :=
  Spares lib s l ∧
  match l with
  | .finish _ _ => True
  | .run k turn => ∀ x ∈ s.pool[k]?, ∀ u ∈ wanted published s.state x.handler.load,
      (∀ e ∈ x.outcome, e.finds u = true) ∧ turn.started = true ∧ turn.converted = true
  | .call (q, turn) => published q.cid ≠ none → turn.started = true

/-- How a load reports a content. -/
def report (u : UnixFSContent) (q : Request) : ReadCall :=
  ⟨.success (some (unixFSPayload u q.filename)), q.parse, q.save⟩

/-- What is reported of a load is still as in its request. -/
def Request.kept (q p : Request) : Prop := p.filename = q.filename ∧ p.parse = q.parse ∧ p.save = q.save

/-- A handler will report the published content `u` for the request `q`, or does it. -/
def Handler.reports (u : UnixFSContent) (q : Request) : Handler → Prop
  | findProviders _ p => q.kept p
  | retry _ p => q.kept p
  | requestContent _ filename parse save => filename = q.filename ∧ parse = q.parse ∧ save = q.save
  | handleRead _ c => c = report u q

def Fetches (published : CID → Option UnixFSContent) (d : Device) (h : Handler) : Prop :=
  ∃ q, requested d h.load = some q ∧ ∀ u, published q.cid = some u → h.reports u q

/-- All loads of published contents have reported or will report these. -/
abbrev Fetching (published : CID → Option UnixFSContent) : Serving → Prop :=
  Carries (Fetches published) fun d => ∀ load ∈ d.loads, ∀ u, published load.request.cid = some u →
    ∀ c ∈ load.delivered, c = report u load.request

theorem Fetches.grows {d e : Device} (same : ∀ i q, requested d i = some q → requested e i = some q)
    {h : Handler} (fetches : Fetches published d h) : Fetches published e h := by
  obtain ⟨q, known, reports⟩ := fetches
  exact ⟨q, same _ q known, reports⟩

/-- A handler passes its load on. -/
theorem Fetches.pass {d : Device} {h k : Handler} (fetches : Fetches published d h) (own : k.load = h.load)
    (reports : ∀ u q, u ∈ wanted published d h.load → h.reports u q → k.reports u q) : Fetches published d k := by
  obtain ⟨q, known, old⟩ := fetches
  refine ⟨q, own ▸ known, ?_⟩
  intro u there
  exact reports u q (by rw [wanted, known]; exact there) (old u there)

theorem Fetching.postFailure (h : Fetching published s) {k : Handler} (fetches : Fetches published s.state k)
    (missing : wanted published s.state k.load = none) : Fetching published (postFailure k.load s) := by
  refine Carries.post h (fetches.pass rfl ?_)
  intro u q there _
  rw [missing] at there
  cases there

theorem Fetching.requestBlockMain (h : Fetching published s)
    (fetches : Fetches published s.state (.findProviders i q)) : Fetching published (requestBlockMain lib i q s) := by
  simp only [IPFSDevice.requestBlockMain, value]
  split
  next => exact Carries.start h (fetches.pass rfl fun _ _ _ kept => kept)
  next => exact h

theorem Fetching.startFindingPeers (h : Fetching published s)
    (fetches : Fetches published s.state (.findProviders i q)) {turn : Turn}
    (starts : ∀ u ∈ wanted published s.state i, turn.started = true) :
    Fetching published (startFindingPeers lib i q turn s) := by
  simp only [IPFSDevice.startFindingPeers, value]
  split
  next =>
    split
    next =>
      split
      next => exact Carries.start h fetches
      next stopped =>
        refine Fetching.postFailure h fetches (Option.eq_none_iff_forall_ne_some.mpr ?_)
        intro u there
        exact stopped (starts u there)
    next => exact h
  next => exact Fetching.requestBlockMain h fetches

theorem Fetching.providersHandler (h : Fetching published s)
    (fetches : Fetches published s.state (.findProviders i q)) {res : Option (List PeerInfo)}
    (finds : ∀ u ∈ wanted published s.state i, (Ec.providers res).finds u = true) :
    Fetching published (providersHandler lib i q res s) := by
  unfold IPFSDevice.providersHandler
  split
  next =>
    refine Fetching.postFailure h fetches (Option.eq_none_iff_forall_ne_some.mpr ?_)
    intro u there
    cases finds u there
  next => exact (Carries.cancel h Handler.isRetry .aborted).start (fetches.pass rfl fun _ _ _ kept => kept)
  next p ps =>
    have added : Fetching published (s.modify fun d => { d with
        providers := d.providers ++ [(q.cid, peerInfos lib ((p :: ps).flatMap PeerInfo.addresses))] }) :=
      Carries.modify h (fun _ fetches => Fetches.grows (fun _ _ known => known) fetches) h.state
    have same : Fetches published s.state (.findProviders i { q with addressoffset := 0 }) :=
      fetches.pass rfl fun _ _ _ kept => kept
    simp only [addAddresses, value]
    split
    next => exact Fetching.requestBlockMain added same
    next => exact added

theorem Fetching.contentHandler (h : Fetching published s) {filename : Str} {parse save : Bool}
    (fetches : Fetches published s.state (.requestContent i filename parse save)) {res : Option UnixFSContent}
    {turn : Turn} (finds : ∀ u ∈ wanted published s.state i, (Ec.content res).finds u = true ∧
      turn.converted = true) : Fetching published (contentHandler i filename parse save res turn s) := by
  cases res with
  | none =>
    refine Fetching.postFailure h fetches (Option.eq_none_iff_forall_ne_some.mpr ?_)
    intro u there
    cases (finds u there).1
  | some content =>
    simp only [IPFSDevice.contentHandler, convertUnixFSContentToResult]
    split
    next =>
      refine Carries.post h (fetches.pass rfl ?_)
      rintro u q there ⟨rfl, rfl, rfl⟩
      have same : some content = some u := by simpa [Ec.finds] using (finds u there).1
      rw [Handler.reports, report, Option.some.inj same]
    next failed =>
      refine Carries.post h (fetches.pass rfl ?_)
      intro u q there _
      exact absurd (finds u there).2 failed

theorem Fetching.handleRead (h : Fetching published s) {c : ReadCall}
    (fetches : Fetches published s.state (.handleRead i c)) : Fetching published (handleRead i c s) := by
  obtain ⟨q, known, reports⟩ := fetches
  refine Carries.modify h ?_ ?_
  · intro k own
    exact Fetches.grows (fun j q named => (handleRead_requests i c s j).trans named) own
  · have each := handleRead_each (D := fun q c => ∀ u, published q.cid = some u → c = report u q) (i := i) (c := c)
      (fun load mem c hc u there => h.state load mem u there c hc) ?_
    · exact fun load mem u there c hc => each load mem c hc u there
    · intro load at_i
      have request : load.request = q := by simpa [requested, Handler.load, at_i] using known
      rw [request]
      exact reports

theorem Fetching.load (h : Fetching published s) {q : Request} {turn : Turn}
    (starts : published q.cid ≠ none → turn.started = true) : Fetching published (load lib q turn s) := by
  have grows {j : Nat} {p : Request} (known : requested s.state j = some p) :
      requested { s.state with loads := s.state.loads ++ [{ request := q }] } j = some p := by
    have lt : j < s.state.loads.length := by
      by_contra beyond
      simp [requested, List.getElem?_eq_none (Nat.not_lt.mp beyond)] at known
    simpa [requested, List.getElem?_append_left lt] using known
  have new : requested { s.state with loads := s.state.loads ++ [{ request := q }] } s.state.loads.length = some q := by
    simp [requested]
  have added : Fetching published (s.modify fun d => { d with loads := d.loads ++ [{ request := q }] }) := by
    refine Carries.modify h (fun k fetches => Fetches.grows (fun _ _ known => grows known) fetches) ?_
    intro load mem u there c hc
    rcases List.mem_append.mp mem with old | fresh
    · exact h.state load old u there c hc
    · rw [List.mem_singleton.mp fresh] at hc
      cases hc
  refine Fetching.startFindingPeers added ⟨q, new, fun u _ => ⟨rfl, rfl, rfl⟩⟩ ?_
  intro u there
  obtain ⟨p, known, there⟩ := Option.bind_eq_some_iff.mp there
  obtain rfl : q = p := Option.some.inj (new.symm.trans known)
  exact starts (by simp [there])

theorem Fetching.run {h : Handler} (fetches : Fetches published s.state h) (hs : Fetching published s) {e : Ec}
    {turn : Turn} (finds : ∀ u ∈ wanted published s.state h.load, e.finds u = true ∧ turn.started = true ∧
      turn.converted = true) (run : h.run lib e turn s = some t) : Fetching published t := by
  cases h with
  | findProviders i q =>
    cases e with
    | providers res =>
      exact Option.some.inj run ▸ Fetching.providersHandler hs fetches fun u there => (finds u there).1
    | _ => cases run
  | retry i q =>
    cases e with
    | expired =>
      exact Option.some.inj run ▸ Fetching.startFindingPeers hs fetches fun u there => (finds u there).2.1
    | aborted => exact Option.some.inj run ▸ hs
    | _ => cases run
  | requestContent i filename parse save =>
    cases e with
    | content res =>
      refine Option.some.inj run ▸ Fetching.contentHandler hs fetches ?_
      intro u there
      exact ⟨(finds u there).1, (finds u there).2.2⟩
    | _ => cases run
  | handleRead i c =>
    cases e with
    | posted => exact Option.some.inj run ▸ Fetching.handleRead hs fetches
    | _ => cases run

theorem reaches_fetching {dht : Bool} (reach : Reaches (machine lib).step (Returns lib published) (created dht) s) :
    Fetching published s := by
  refine Carries.reaches_where ?_ ?_ reach ⟨by simp [created], by simp [created]⟩
  · intro s k turn x e rest t good hk fetches left run
    refine Fetching.run (s := { s with pool := rest }) fetches left ?_ run
    intro u there
    obtain ⟨finds, works⟩ := good.2 _ (takeAt_getElem hk) u there
    exact ⟨finds e rfl, works⟩
  · intro s a t good hs called
    exact Option.some.inj called ▸ Fetching.load hs good.2

/-- A load that bitswap returns the content of is under way, or has reported it once. -/
theorem load_fetched {dht : Bool} (reach : Reaches (machine lib).step (Returns lib published) (created dht) s)
    {load : Load} (hi : s.state.loads[i]? = some load) {u : UnixFSContent}
    (there : published load.request.cid = some u) :
    (0 < s.pool.countP (owes i) ∧ load.delivered = []) ∨
      (s.pool.countP (owes i) = 0 ∧ load.delivered = [report u load.request]) := by
  have balanced := reaches_balanced (reach.mono fun _ _ good => good.1) i
  have each := (reaches_fetching reach).state load (List.mem_of_getElem? hi) u there
  have once : s.pool.countP (owes i) + load.delivered.length = 1 := by
    simpa [Loop.balance, delivered, hi] using balanced
  rcases told : load.delivered with _ | ⟨c, _ | ⟨d, rest⟩⟩
  · rw [told, List.length_nil] at once
    exact .inl ⟨by omega, rfl⟩
  · rw [told, List.length_singleton] at once
    rw [each c (by simp [told])]
    exact .inr ⟨by omega, rfl⟩
  · rw [told, List.length_cons, List.length_cons] at once
    omega

/-- The only load of a device that has asked for its content can come to its report. -/
theorem reaches_answered {u : UnixFSContent} (there : published q.cid = some u) {waiting : Device}
    (only : waiting.loads = [{ request := q }]) :
    Reaches (machine lib).step (Returns lib published)
      ⟨waiting, [⟨.requestContent 0 q.filename q.parse q.save, none⟩]⟩
      ⟨{ waiting with loads := [{ request := q, delivered := [report u q] }] }, []⟩ := by
  let asks : Handler := .requestContent 0 q.filename q.parse q.save
  let answers : Handler := .handleRead 0 (report u q)
  have first : requested waiting 0 = some q := by simp [requested, only]
  have answered : (machine lib).step ⟨waiting, [⟨asks, none⟩]⟩ (.finish 0 (.content (some u))) =
      some ⟨waiting, [⟨asks, some (.content (some u))⟩]⟩ := rfl
  have converted : (machine lib).step ⟨waiting, [⟨asks, some (.content (some u))⟩]⟩ (.run 0 {}) =
      some ⟨waiting, [⟨answers, some .posted⟩]⟩ := rfl
  have reported : (machine lib).step ⟨waiting, [⟨answers, some .posted⟩]⟩ (.run 0 {}) =
      some ⟨{ waiting with loads := [{ request := q, delivered := [report u q] }] }, []⟩ := by
    change some (IPFSDevice.handleRead 0 (report u q) ⟨waiting, []⟩) = _
    simp [IPFSDevice.handleRead, Loop.modify, only]
  have returned : Returns lib published ⟨waiting, [⟨asks, some (.content (some u))⟩]⟩ (.run 0 {}) := by
    refine ⟨trivial, ?_⟩
    rintro _ ⟨rfl⟩ v wanted
    have same : some u = some v := by
      rw [← there, ← wanted, IPFSDevice.wanted, Handler.load, first]
      rfl
    refine ⟨?_, rfl, rfl⟩
    rintro _ ⟨rfl⟩
    simpa [Ec.finds] using same
  have posted : Returns lib published ⟨waiting, [⟨answers, some .posted⟩]⟩ (.run 0 {}) := by
    refine ⟨trivial, ?_⟩
    rintro _ ⟨rfl⟩ v _
    refine ⟨?_, rfl, rfl⟩
    rintro _ ⟨rfl⟩
    rfl
  have finished : Returns lib published ⟨waiting, [⟨asks, none⟩]⟩ (.finish 0 (.content (some u))) :=
    ⟨trivial, trivial⟩
  exact ((Reaches.one finished answered).next returned converted).next posted reported

/-- The load that is the first one of its device can come to its report, with a search for
providers before it or not. -/
theorem reaches_fetched {u : UnixFSContent} (dht : Bool) (accepted : accepts lib dht q.cid = true)
    (written : lib.toString q.cid = true) (there : published q.cid = some u) :
    ∃ s, Reaches (machine lib).step (Returns lib published) (created dht) s ∧
      s.state.loads = [{ request := q, delivered := [report u q] }] ∧ s.pool = [] := by
  let waiting : Device := { dht, loads := [{ request := q }] }
  let asks : Handler := .requestContent 0 q.filename q.parse q.save
  have asked : Returns lib published (created dht) (.call (q, {})) := ⟨accepted, fun _ => rfl⟩
  cases dht with
  | false =>
    have called : (machine lib).step (created false) (.call (q, {})) = some ⟨waiting, [⟨asks, none⟩]⟩ := by
      change some (IPFSDevice.load lib q {} (created false)) = _
      simp [IPFSDevice.load, startFindingPeers, requestBlockMain, value, created, written, Loop.start,
        Loop.modify, waiting, asks]
    exact ⟨_, (Reaches.one asked called).trans (reaches_answered there rfl), rfl, rfl⟩
  | true =>
    let searches : Handler := .findProviders 0 q
    let found : Ec := .providers (some [⟨[], []⟩])
    have hashed : lib.fromHash q.cid = true := accepted
    have called : (machine lib).step (created true) (.call (q, {})) = some ⟨waiting, [⟨searches, none⟩]⟩ := by
      change some (IPFSDevice.load lib q {} (created true)) = _
      simp [IPFSDevice.load, startFindingPeers, value, created, hashed, Loop.start, Loop.modify, waiting, searches]
    have searched : (machine lib).step ⟨waiting, [⟨searches, none⟩]⟩ (.finish 0 found) =
        some ⟨waiting, [⟨searches, some found⟩]⟩ := rfl
    have continued : (machine lib).step ⟨waiting, [⟨searches, some found⟩]⟩ (.run 0 {}) =
        some ⟨{ waiting with providers := [(q.cid, [])] }, [⟨asks, none⟩]⟩ := by
      change some (providersHandler lib 0 q (some [⟨[], []⟩]) ⟨waiting, []⟩) = _
      simp [providersHandler, addAddresses, requestBlockMain, value, written, peerInfos, Loop.start, Loop.modify,
        waiting, asks]
    have finished : Returns lib published ⟨waiting, [⟨searches, none⟩]⟩ (.finish 0 found) := ⟨trivial, trivial⟩
    have returned : Returns lib published ⟨waiting, [⟨searches, some found⟩]⟩ (.run 0 {}) := by
      refine ⟨written, ?_⟩
      rintro _ ⟨rfl⟩ v _
      refine ⟨?_, rfl, rfl⟩
      rintro _ ⟨rfl⟩
      rfl
    exact ⟨_, (((Reaches.one asked called).next finished searched).next returned continued).trans
      (reaches_answered there rfl), rfl, rfl⟩

end IPFSDevice

namespace IPFSLoader

/-- `ContentIdentifierCodec`. A CID that can be written is written as `text`. -/
structure Codec where
  text : CID → Str
  fromString : Str → Option CID

/-- The text of a CID is not empty, has no slash in it, and is read as the CID. -/
structure Codec.Reads (codec : Codec) (lib : Libp2p) : Prop where
  some : ∀ cid, lib.toString cid = true → codec.text cid ≠ []
  plain : ∀ cid, lib.toString cid = true → '/' ∉ codec.text cid
  back : ∀ cid, lib.toString cid = true → codec.fromString (codec.text cid) = .some cid

/-- What `LoadASync` posts: the report of an error, or a load for the device. -/
inductive Posted
  | failure (e : Error)
  | request (q : IPFSDevice.Request)
deriving DecidableEq, Repr

/-- `external` tells whether a bitswap has been set, `device` whether there is a device. -/
def loadASync (codec : Codec) (external device : Bool) (filename : Str) (parse save : Bool) : Posted :=
  match parseIPFSUrl filename with
  | (false, _) => .failure .invalidUrl
  | (true, o) =>
    if external then
      match codec.fromString o.cid with
      | none => .failure .badCid
      | some cid => if device then .request ⟨cid, o.file, 0, parse, save⟩ else .failure .cannotListen
    else if device then
      match codec.fromString o.cid with
      | none => .failure .badCid
      | some cid => .request ⟨cid, o.file, 0, parse, save⟩
    else .failure .cannotListen

theorem loadASync_plain (codec : Codec) (external device : Bool) {filename : Str} (plain : '/' ∉ filename)
    (parse save : Bool) : loadASync codec external device filename parse save = .failure .invalidUrl := by
  have refused := parseIPFSUrl_plain plain
  unfold loadASync
  split
  next => rfl
  next parsed =>
    rw [parsed] at refused
    cases refused

theorem loadASync_slash {codec : Codec} {lib : Libp2p} (reads : codec.Reads lib) {cid : CID}
    (written : lib.toString cid = true) (external : Bool) (file : Str) (parse save : Bool) :
    loadASync codec external true (codec.text cid ++ '/' :: file) parse save =
      .request ⟨cid, file, 0, parse, save⟩ := by
  rw [loadASync, parseIPFSUrl_slash (reads.some cid written) (reads.plain cid written)]
  cases external <;> simp [reads.back cid written]

end IPFSLoader

end AsyncIOManager
