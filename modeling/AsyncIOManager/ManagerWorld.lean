import AsyncIOManager.Composition
import AsyncIOManager.Held
import AsyncIOManager.HTTPLiveness
import AsyncIOManager.IPFSReports
import AsyncIOManager.ManagerSavers
import AsyncIOManager.MNNLoader
import AsyncIOManager.OutstandingOperations

namespace AsyncIOManager

open Reactor Files Paths

namespace MNNLoader

def settled (p : Progress) : Nat := p.delivered.length

/-- A read reports as its handler was told to. -/
def Handler.Flagged (parse save : Bool) : Handler → Prop
  | read _ p q => p = parse ∧ q = save
  | completion _ => True

/-- A file is read, or has been reported once. -/
structure Once (parse save : Bool) (s : Reading) : Prop where
  balanced : s.balance (fun _ => true) settled = 1
  pool : ∀ x ∈ s.pool, x.handler.Flagged parse save
  posted : ∀ x ∈ s.pool, ∀ e, x.handler = .completion e → x.outcome ≠ none
  delivered : ∀ c ∈ s.state.delivered, c.Flags parse save

theorem run_tells (h : Handler) (e : Ec) (buffer : Str) (s : Reading) :
    ∃ c, h.run e buffer s = handleRead c s ∧ ∀ parse save, h.Flagged parse save → c.Flags parse save := by
  cases h with
  | read filename p q =>
    cases e with
    | eof => exact ⟨_, rfl, fun parse save own => flags_success _ own⟩
    | other => exact ⟨_, rfl, fun parse save _ => flags_failure parse save _ _ _⟩
  | completion err => exact ⟨_, rfl, fun parse save _ => flags_failure parse save _ _ _⟩

theorem Once.step {parse save : Bool} {s t : Reading} {l : Label Ec Str Empty} (hs : Once parse save s)
    (h : machine.step s l = some t) : Once parse save t ∧
      (t.state.delivered = s.state.delivered ∨ s.state.delivered = [] ∧ ∃ c, t.state.delivered = [c]) := by
  have balanced := hs.balanced
  rcases Machine.step_cases h with ⟨k, e, x, _, hk, _, rfl⟩ | ⟨k, o, x, e, rest, _, hk, hr⟩ | ⟨a, _, _⟩
  · refine ⟨⟨?_, fun y hy => ?_, fun y hy err own => ?_, hs.delivered⟩, .inl rfl⟩
    · simpa [Loop.balance, List.countP_true] using balanced
    · rcases List.mem_or_eq_of_mem_set hy with old | rfl
      · exact hs.pool y old
      · exact hs.pool ⟨x, none⟩ (List.mem_of_getElem? hk)
    · rcases List.mem_or_eq_of_mem_set hy with old | rfl
      · exact hs.posted y old err own
      · simp
  · cases Option.some.inj hr
    obtain ⟨c, eq, flags⟩ := run_tells x e o { s with pool := rest }
    obtain ⟨alone, unsettled⟩ := Loop.alone balanced hk rfl
    have none : s.state.delivered = [] := List.length_eq_zero_iff.mp unsettled
    have idle : rest = [] := List.eq_nil_iff_forall_not_mem.mpr fun y hy => absurd (alone y hy) (by simp)
    have told : (handleRead c { s with pool := rest }).state.delivered = [c] := by simp [handleRead, none]
    rw [eq]
    refine ⟨⟨?_, ?_, ?_, ?_⟩, .inr ⟨none, c, told⟩⟩
    · simp [Loop.balance, handleRead, settled, none, idle]
    · intro y hy
      exact hs.pool y (takeAt_rest_mem hk hy)
    · intro y hy
      exact hs.posted y (takeAt_rest_mem hk hy)
    · intro d hd
      rw [told] at hd
      rw [List.mem_singleton.mp hd]
      exact flags parse save (hs.pool _ (takeAt_mem hk))
  · exact a.elim

theorem once_loadASync (filename : Str) (parse save opened : Bool) :
    Once parse save (loadASync filename parse save opened) := by
  cases opened with
  | true =>
    refine ⟨rfl, fun x hx => ?_, fun x hx e own => ?_, by simp [loadASync]⟩
    · cases List.mem_singleton.mp hx
      exact ⟨rfl, rfl⟩
    · cases List.mem_singleton.mp hx
      cases own
  | false =>
    refine ⟨rfl, fun x hx => ?_, fun x hx e own => ?_, by simp [loadASync]⟩
    · cases List.mem_singleton.mp hx
      trivial
    · cases List.mem_singleton.mp hx
      simp

end MNNLoader

namespace HTTPDevice

theorem ReadCall.Sound.flags {parse save : Bool} {c : ReadCall} (h : ReadCall.Sound parse save c) :
    c.Flags parse save := by
  rcases h with ⟨err, rfl⟩ | ⟨payload, rfl⟩
  · exact flags_failure parse save err false false
  · exact flags_success payload ⟨rfl, rfl⟩

/-- A step of a download reports at most once. -/
theorem step_told {s t : Download} {l : Label Ec Str Empty} (balanced : s.balance owes settled = 1)
    (h : machine.step s l = some t) :
    t.state.delivered = s.state.delivered ∨ s.state.delivered = [] ∧ ∃ c, t.state.delivered = [c] := by
  have after := step_balance h
  have bound : t.state.delivered.length ≤ 1 := Loop.settled_le_one (after.trans balanced)
  have grown : t.state.delivered = s.state.delivered ∨ ∃ c, t.state.delivered = s.state.delivered ++ [c] := by
    rcases Machine.step_cases h with ⟨k, e, x, _, hk, _, rfl⟩ | ⟨k, o, x, e, rest, _, hk, hr⟩ | ⟨a, _, _⟩
    · exact .inl rfl
    · cases Option.some.inj hr
      rcases run_delivered x e o { s with pool := rest } with eq | ⟨err, eq⟩ | ⟨self, content, _, eq⟩
      · exact .inl eq
      · exact .inr ⟨_, eq⟩
      · exact .inr ⟨_, eq⟩
    · exact a.elim
  rcases grown with same | ⟨c, eq⟩
  · exact .inl same
  · have none : s.state.delivered = [] := by
      rw [eq, List.length_append, List.length_singleton] at bound
      exact List.length_eq_zero_iff.mp (by omega)
    exact .inr ⟨none, c, by rw [eq, none]; rfl⟩

end HTTPDevice

namespace FileManager

inductive Saver
  | mnn | ipfs | sftp
deriving DecidableEq, Repr

/-- The savers as `InitializeSingletons` registers them. -/
def singletonSaver (name : Str) : Saver :=
  if name = "ipfs".toList then .ipfs else if name = "sftp".toList then .sftp else .mnn

/-- What runs for a callback of the manager: a loader, an IPFS load that is refused, posted, on a
device of its own or on the shared one, or a save. `called` counts the posted completions of an
IPFS save that have run. -/
inductive Worker
  | file (r : MNNLoader.Reading)
  | https (d : HTTPDevice.Download)
  | refused (e : IPFSLoader.Error) (ran : Bool)
  | posted (q : IPFSDevice.Request) (external : Option Bool)
  | own (s : IPFSDevice.Serving)
  | shared (i : Nat)
  | mnn (s : MNNSaver.Saving (Place Str))
  | ipfs (s : IPFSSaver.Save) (called : Nat)
  | sftp (s : SFTPSaver.Saving)

/-- The files that the saves to local files share, and those that the IPFS saves stage. -/
structure Storage where
  disk : Disk (Place Str) Char
  tree : IPFSSaver.Tree

/-- The workers of all callbacks, the device that `IPFSDevice::getInstance` shares, and the files. -/
structure Loaders where
  workers : List Worker
  device : IPFSDevice.Serving
  files : Storage

/-- What a loader meets when it is called: whether the file is opened, how the host is resolved
and its name is set, whether there is an external bitswap (and with it a DHT), and whether there is
a device. What a saver meets: where the caller wants the location, and what the calls of its
`SaveASync` come to. -/
structure Meets where
  opened : Bool := true
  resolve : HTTPDevice.Resolve := .resolved
  sni : Option Str := none
  external : Option Bool := none
  device : Bool := true
  saveLocation : Option Str := none
  nullData : Bool := false
  uuid : Str := []
  openings : List MNNSaver.Opening := []
  bitswap : Bool := false
  acts : List IPFSSaver.Act := []
  resolves : List SFTPUploadDevice.Resolve := []
deriving DecidableEq, Repr

/-- A step of a worker, the handler that an IPFS load or save has posted, or a step of the shared
device. -/
inductive Move
  | file (n : Nat) (l : Label MNNLoader.Ec Str Empty)
  | https (n : Nat) (l : Label HTTPDevice.Ec Str Empty)
  | post (n : Nat) (turn : IPFSDevice.Turn)
  | own (n : Nat) (l : Label IPFSDevice.Ec IPFSDevice.Turn (IPFSDevice.Request × IPFSDevice.Turn))
  | device (l : Label IPFSDevice.Ec IPFSDevice.Turn (IPFSDevice.Request × IPFSDevice.Turn))
  | mnn (n : Nat) (l : Label MNNSaver.Ec Unit MNNSaver.Act)
  | ipfs (n : Nat) (a : IPFSSaver.Act)
  | handleWrite (n : Nat)
  | sftp (n : Nat) (l : Label SFTPUploadDevice.Ec Ssh2 SFTPUploadDevice.Resolve)

def Worker.told (device : IPFSDevice.Serving) : Worker → List Outcome
  | file r => r.state.delivered.map .read
  | https d => d.state.delivered.map .read
  | refused e ran => if ran then [.read (.failure (.ipfsLoader e))] else []
  | posted _ _ => []
  | own s => (IPFSDevice.reported 0 s.state).map .read
  | shared i => (IPFSDevice.reported i device.state).map .read
  | mnn s => List.replicate s.state.handleWrites .written
  | ipfs _ called => List.replicate called .written
  | sftp s => List.replicate s.state.handleWrites .written

namespace Loaders

def told (x : Loaders) (n : Nat) : List Outcome :=
  match x.workers[n]? with
  | some w => w.told x.device
  | none => []

def count (x : Loaders) : Nat := x.workers.length

def put (n : Nat) (w : Worker) (x : Loaders) : Loaders := { x with workers := x.workers.set n w }

def call (w : Worker) (f : Storage) (x : Loaders) : Loaders := { x with workers := x.workers ++ [w], files := f }

/-- The file of a path that is opened. -/
def target (path : Str) : Place Str := place (cStr path)

/-- A device is only called by the handlers that are posted. -/
def serve (lib : Libp2p) (s : IPFSDevice.Serving) :
    Label IPFSDevice.Ec IPFSDevice.Turn (IPFSDevice.Request × IPFSDevice.Turn) → Option IPFSDevice.Serving
  | .call _ => none
  | l => (IPFSDevice.machine lib).step s l

def advance (lib : Libp2p) (x : Loaders) : Move → Option Loaders
  | .file n l =>
    match x.workers[n]? with
    | some (.file r) => (MNNLoader.machine.step r l).map fun r => x.put n (.file r)
    | _ => none
  | .https n l =>
    match x.workers[n]? with
    | some (.https d) => (HTTPDevice.machine.step d l).map fun d => x.put n (.https d)
    | _ => none
  | .post n turn =>
    match x.workers[n]? with
    | some (.refused e false) => some (x.put n (.refused e true))
    | some (.posted q (some dht)) => some (x.put n (.own (IPFSDevice.load lib q turn (IPFSDevice.created dht))))
    | some (.posted q none) =>
      some { x with
        workers := x.workers.set n (.shared x.device.state.loads.length)
        device := IPFSDevice.load lib q turn x.device }
    | _ => none
  | .own n l =>
    match x.workers[n]? with
    | some (.own s) => (serve lib s l).map fun s => x.put n (.own s)
    | _ => none
  | .device l => (serve lib x.device l).map fun s => { x with device := s }
  | .mnn n l =>
    match x.workers[n]? with
    | some (.mnn s) =>
      ((MNNSaver.machine target).step (s.modify fun m => { m with disk := x.files.disk }) l).map fun s =>
        { x.put n (.mnn s) with files := { x.files with disk := s.state.disk } }
    | _ => none
  | .ipfs n a =>
    match x.workers[n]? with
    | some (.ipfs s called) =>
      (s.step a x.files.tree).map fun next =>
        { x.put n (.ipfs next.1 called) with files := { x.files with tree := next.2 } }
    | _ => none
  | .handleWrite n =>
    match x.workers[n]? with
    | some (.ipfs s called) => if called < s.posts then some (x.put n (.ipfs s (called + 1))) else none
    | _ => none
  | .sftp n l =>
    match x.workers[n]? with
    | some (.sftp s) => (SFTPSaver.machine.step s l).map fun s => x.put n (.sftp s)
    | _ => none

/-- What the loader does that is registered for the scheme of the URL. -/
def load (codec : IPFSLoader.Codec) (call : Load) (filePath : Str) (b : Meets) : Option Worker :=
  if (getURLComponents call.url).2.pre = "file".toList then
    some (.file (MNNLoader.loadASync filePath call.parse call.save b.opened))
  else if (getURLComponents call.url).2.pre = "https".toList then
    match HTTPLoader.loadASync filePath call.parse call.save b.resolve b.sni with
    | .ok d => some (.https d)
    | .error _ => none
  else if (getURLComponents call.url).2.pre = "ipfs".toList then
    match IPFSLoader.loadASync codec b.external.isSome b.device filePath call.parse call.save with
    | .failure e => some (.refused e false)
    | .request q => some (.posted q b.external)
  else none

/-- What a saver does until its `SaveASync` returns. -/
def save (saver : Saver) (filename : Str) (data : ResultType) (saveLocation : Option Str) (b : Meets) (f : Storage) :
    Option (Worker × Storage) :=
  match saver with
  | .mnn =>
    (MNNSaver.returned target filename data b.nullData b.uuid saveLocation f.disk b.openings).map fun s =>
      (.mnn s, { f with disk := s.state.disk })
  | .ipfs =>
    (IPFSSaver.returned data b.bitswap saveLocation b.acts f.tree).map fun p => (.ipfs p.1 0, { f with tree := p.2 })
  | .sftp => (SFTPSaver.returned filename data saveLocation b.resolves).map fun s => (.sftp s, f)

/-- `kind` is the saver that is registered under a name. -/
def start (codec : IPFSLoader.Codec) (kind : Str → Saver) (h : Handler) (b : Meets) (x : Loaders) : Option Loaders :=
  match h with
  | .handleRead _ call filePath _ => (load codec call filePath b).map fun w => x.call w x.files
  | .nestedWrite _ _ savetype _ buffers =>
    (save (kind savetype) [] buffers none b x.files).map fun p => x.call p.1 p.2
  | .handleWrite _ call filePath _ =>
    (save (kind (getURLComponents call.url).2.pre) filePath call.data b.saveLocation b x.files).map fun p =>
      x.call p.1 p.2

end Loaders

/-- The loaders and savers as the manager meets them. -/
def loaders (lib : Libp2p) (codec : IPFSLoader.Codec) (kind : Str → Saver) :
    World Handler Outcome Loaders Move Meets :=
  .watch Loaders.told Loaders.count (Loaders.advance lib) (Loaders.start codec kind)

/-- The callback of a load with these flags. -/
def Handler.Reads (parse save : Bool) : Handler → Prop
  | handleRead _ call _ _ => call.parse = parse ∧ call.save = save
  | _ => False

/-- The name of the saver that a callback is given to, and the data. -/
def Handler.saver : Handler → Option (Str × ResultType)
  | handleRead _ _ _ _ => none
  | nestedWrite _ _ savetype _ buffers => some (savetype, buffers)
  | handleWrite _ call _ _ => some ((getURLComponents call.url).2.pre, call.data)

/-- A load is told with its own flags, and a save that it is done. -/
def Handler.fits : Handler → Outcome → Prop
  | handleRead _ call _ _, .read c => c.Flags call.parse call.save
  | nestedWrite _ _ _ _ _, .written => True
  | handleWrite _ _ _ _, .written => True
  | _, _ => False

theorem Handler.Reads.fits {h : Handler} {parse save : Bool} (reads : h.Reads parse save) {c : ReadCall}
    (flags : c.Flags parse save) : h.fits (.read c) := by
  cases h with
  | handleRead op call filePath suffix =>
    obtain ⟨rfl, rfl⟩ := reads
    exact flags
  | nestedWrite op ioc savetype suffix buffers => cases reads
  | handleWrite op call filePath suffix => cases reads

theorem Handler.saver_fits {h : Handler} {p : Str × ResultType} (saves : h.saver = some p) : h.fits .written := by
  cases h with
  | handleRead op call filePath suffix => cases saves
  | nestedWrite op ioc savetype suffix buffers => trivial
  | handleWrite op call filePath suffix => trivial

/-- The callback of a save with this saver. -/
def Handler.Saves (kind : Str → Saver) (saver : Saver) (data : ResultType) (h : Handler) : Prop :=
  ∃ name, h.saver = some (name, data) ∧ kind name = saver

/-- What a worker is like while it runs for a callback. -/
def Worker.Fits (kind : Str → Saver) (device : IPFSDevice.Serving) (h : Handler) : Worker → Prop
  | file r => ∃ parse save, h.Reads parse save ∧ MNNLoader.Once parse save r
  | https d => ∃ parse save, h.Reads parse save ∧ HTTPDevice.Sane d ∧ HTTPDevice.Flags parse save d
  | refused _ _ => ∃ parse save, h.Reads parse save
  | posted q _ => h.Reads q.parse q.save
  | own s => ∃ q, h.Reads q.parse q.save ∧ IPFSDevice.requested s.state 0 = some q ∧
      IPFSDevice.AtMost s ∧ IPFSDevice.Ready s ∧ IPFSDevice.Keeps s
  | shared i => ∃ q, h.Reads q.parse q.save ∧ IPFSDevice.requested device.state i = some q
  | mnn s => ∃ data, h.Saves kind .mnn data ∧ MNNSaver.Left (MNNSaver.toSave data).first.length s
  | ipfs s called => ∃ data, h.Saves kind .ipfs data ∧ IPFSSaver.Left s ∧ called ≤ s.posts
  | sftp s => ∃ data, h.Saves kind .sftp data ∧ SFTPSaver.Left s

/-- Every callback has its own worker, and every load of the shared device its own callback. -/
structure Loaders.Fine (kind : Str → Saver) (hs : List Handler) (x : Loaders) : Prop where
  numbered : hs.length = x.workers.length
  fits : ∀ (n : Nat) (h : Handler) (w : Worker), hs[n]? = some h → x.workers[n]? = some w → w.Fits kind x.device h
  atMost : IPFSDevice.AtMost x.device
  ready : IPFSDevice.Ready x.device
  keeps : IPFSDevice.Keeps x.device
  apart : ∀ n k i : Nat, x.workers[n]? = some (.shared i) → x.workers[k]? = some (.shared i) → n = k

theorem reported_flags {s : IPFSDevice.Serving} (keeps : IPFSDevice.Keeps s) {i : Nat} {q : IPFSDevice.Request}
    (known : IPFSDevice.requested s.state i = some q) :
    ∀ c ∈ IPFSDevice.reported i s.state, c.Flags q.parse q.save := by
  intro c hc
  obtain ⟨load, at_i, rfl⟩ := Option.map_eq_some_iff.mp known
  rw [IPFSDevice.reported, at_i] at hc
  exact keeps.state load (List.mem_of_getElem? at_i) c hc

section Fits

variable {kind : Str → Saver}

/-- What a worker reports fits its callback. -/
theorem Worker.Fits.told {device : IPFSDevice.Serving} (keeps : IPFSDevice.Keeps device) {h : Handler} {w : Worker}
    (fits : w.Fits kind device h) {e : Outcome} (mem : e ∈ w.told device) : h.fits e := by
  cases w with
  | file r =>
    obtain ⟨parse, save, reads, once⟩ := fits
    obtain ⟨c, hc, rfl⟩ := List.mem_map.mp mem
    exact reads.fits (once.delivered c hc)
  | https d =>
    obtain ⟨parse, save, reads, _, flags⟩ := fits
    obtain ⟨c, hc, rfl⟩ := List.mem_map.mp mem
    exact reads.fits (flags.delivered c hc).flags
  | refused err ran =>
    obtain ⟨parse, save, reads⟩ := fits
    cases ran with
    | true =>
      rw [List.mem_singleton.mp mem]
      exact reads.fits (flags_failure parse save _ false false)
    | false => cases mem
  | posted q external => cases mem
  | own s =>
    obtain ⟨q, reads, known, _, _, kept⟩ := fits
    obtain ⟨c, hc, rfl⟩ := List.mem_map.mp mem
    exact reads.fits (reported_flags kept known c hc)
  | shared i =>
    obtain ⟨q, reads, known⟩ := fits
    obtain ⟨c, hc, rfl⟩ := List.mem_map.mp mem
    exact reads.fits (reported_flags keeps known c hc)
  | mnn s | ipfs s called | sftp s =>
    obtain ⟨data, ⟨name, saves, _⟩, _⟩ := fits
    rw [List.eq_of_mem_replicate mem]
    exact Handler.saver_fits saves

theorem Worker.Fits.device {d e : IPFSDevice.Serving} {h : Handler} {w : Worker}
    (same : ∀ i q, IPFSDevice.requested d.state i = some q → IPFSDevice.requested e.state i = some q)
    (fits : w.Fits kind d h) : w.Fits kind e h := by
  cases w with
  | shared i =>
    obtain ⟨q, reads, known⟩ := fits
    exact ⟨q, reads, same i q known⟩
  | file r => exact fits
  | https d => exact fits
  | refused err ran => exact fits
  | posted q external => exact fits
  | own s => exact fits
  | mnn s => exact fits
  | ipfs s called => exact fits
  | sftp s => exact fits

end Fits

namespace Loaders

variable {kind : Str → Saver} {x y : Loaders} {n : Nat} {w : Worker} {hs : List Handler}

theorem told_at (known : x.workers[n]? = some w) : x.told n = w.told x.device := by
  rw [told, known]

/-- A worker that goes on reports nothing, or its end. -/
theorem reports_put {v : Worker} (known : x.workers[n]? = some w)
    (news : v.told x.device = w.told x.device ∨ w.told x.device = [] ∧ ∃ e, v.told x.device = [e]) :
    World.Reports told count x (x.put n v) := by
  have bound : n < x.workers.length := (List.getElem?_eq_some_iff.mp known).1
  have own : (x.put n v).told n = v.told x.device := told_at (by simp [put, bound])
  have others (k : Nat) (other : k ≠ n) : (x.put n v).told k = x.told k := by
    simp [told, put, Ne.symm other]
  rcases news with same | ⟨none, e, told⟩
  · refine .silent fun k => ?_
    by_cases here : k = n
    · rw [here, own, same, told_at known]
    · exact others k here
  · exact .report n e bound ((told_at known).trans none) (own.trans told) others

/-- A worker is replaced by one that fits its callback as well. -/
theorem Fine.put {v : Worker} (hx : Fine kind hs x) (known : x.workers[n]? = some w)
    (fits : ∀ h, w.Fits kind x.device h → v.Fits kind x.device h) (unshared : ∀ i, v ≠ .shared i) :
    Fine kind hs (x.put n v) := by
  refine ⟨?_, fun k h u at_k here => ?_, hx.atMost, hx.ready, hx.keeps, fun k m i left right => ?_⟩
  · rw [Loaders.put, List.length_set]
    exact hx.numbered
  · rcases set_cases here with ⟨rfl, rfl⟩ | ⟨_, old⟩
    · exact fits h (hx.fits k h w at_k known)
    · exact hx.fits k h u at_k old
  · rcases set_cases left with ⟨_, own⟩ | ⟨_, first⟩
    · exact absurd own.symm (unshared i)
    · rcases set_cases right with ⟨_, own⟩ | ⟨_, second⟩
      · exact absurd own.symm (unshared i)
      · exact hx.apart k m i first second

/-- Nothing depends on the files. -/
theorem Fine.files (hx : Fine kind hs x) (f : Storage) : Fine kind hs { x with files := f } :=
  ⟨hx.numbered, hx.fits, hx.atMost, hx.ready, hx.keeps, hx.apart⟩

theorem reports_files (news : World.Reports told count x y) (f : Storage) :
    World.Reports told count x { y with files := f } := by
  cases news with
  | silent same => exact .silent same
  | report k e bound before after others => exact .report k e bound before after others

theorem serve_step {lib : Libp2p} {s t : IPFSDevice.Serving}
    {l : Label IPFSDevice.Ec IPFSDevice.Turn (IPFSDevice.Request × IPFSDevice.Turn)}
    (h : serve lib s l = some t) : (IPFSDevice.machine lib).step s l = some t := by
  cases l with
  | call a => cases h
  | finish k e => exact h
  | run k o => exact h

theorem map_told {a b : List ReadCall} (h : b = a ∨ a = [] ∧ ∃ c, b = [c]) :
    b.map Outcome.read = a.map Outcome.read ∨ a.map Outcome.read = [] ∧ ∃ e, b.map Outcome.read = [e] := by
  rcases h with rfl | ⟨rfl, c, rfl⟩
  · exact .inl rfl
  · exact .inr ⟨rfl, _, rfl⟩

theorem replicate_told {a b : Nat} (h : b = a ∨ a = 0 ∧ b = 1) :
    List.replicate b Outcome.written = List.replicate a Outcome.written ∨
      List.replicate a Outcome.written = [] ∧ ∃ e, List.replicate b Outcome.written = [e] := by
  rcases h with rfl | ⟨rfl, rfl⟩
  · exact .inl rfl
  · exact .inr ⟨rfl, _, rfl⟩

/-- A step of the shared device reports the callback of one load at most. -/
theorem reports_device {s : IPFSDevice.Serving} (hx : Fine kind hs x)
    (news : (∀ i, IPFSDevice.reported i s.state = IPFSDevice.reported i x.device.state) ∨
      ∃ i c, IPFSDevice.reported i x.device.state = [] ∧ IPFSDevice.reported i s.state = [c] ∧
        ∀ j, j ≠ i → IPFSDevice.reported j s.state = IPFSDevice.reported j x.device.state) :
    World.Reports told count x { x with device := s } := by
  have same (k : Nat) (unshared : ∀ i, x.workers[k]? = some (.shared i) →
      IPFSDevice.reported i s.state = IPFSDevice.reported i x.device.state) :
      ({ x with device := s } : Loaders).told k = x.told k := by
    simp only [told]
    cases known : x.workers[k]? with
    | none => rfl
    | some v =>
      cases v with
      | shared i => simp only [Worker.told, unshared i known]
      | _ => rfl
  rcases news with quiet | ⟨i, c, none, told, others⟩
  · exact .silent fun k => same k fun i _ => quiet i
  · by_cases held : ∃ k : Nat, x.workers[k]? = some (.shared i)
    · obtain ⟨k, known⟩ := held
      have bound : k < x.workers.length := (List.getElem?_eq_some_iff.mp known).1
      refine .report k (.read c) bound ?_ ?_ fun m other => same m fun j at_m => others j ?_
      · rw [told_at known, Worker.told, none]
        rfl
      · rw [told_at (x := { x with device := s }) known, Worker.told, told]
        rfl
      · rintro rfl
        exact other (hx.apart m k j at_m known)
    · exact .silent fun k => same k fun j at_k => others j fun eq => held ⟨k, eq ▸ at_k⟩

theorem Fine.device {s : IPFSDevice.Serving} (hx : Fine kind hs x) (atMost : IPFSDevice.AtMost s)
    (ready : IPFSDevice.Ready s) (keeps : IPFSDevice.Keeps s)
    (same : ∀ i q, IPFSDevice.requested x.device.state i = some q → IPFSDevice.requested s.state i = some q) :
    Fine kind hs { x with device := s } :=
  ⟨hx.numbered, fun n h w at_n known => (hx.fits n h w at_n known).device same, atMost, ready, keeps, hx.apart⟩

/-- Every worker runs for a callback. -/
theorem Fine.fits_some (hx : Fine kind hs x) {w : Worker} (known : x.workers[n]? = some w) :
    ∃ h, w.Fits kind x.device h := by
  have bound : n < hs.length := by
    rw [hx.numbered]
    exact (List.getElem?_eq_some_iff.mp known).1
  exact ⟨hs[n], hx.fits n _ w (List.getElem?_eq_getElem bound) known⟩

theorem Fine.shared_known (hx : Fine kind hs x) {i : Nat} (known : x.workers[n]? = some (.shared i)) :
    i < x.device.state.loads.length := by
  obtain ⟨_, q, _, asked⟩ := hx.fits_some known
  obtain ⟨load, at_i, _⟩ := Option.map_eq_some_iff.mp asked
  exact (List.getElem?_eq_some_iff.mp at_i).1

/-- A load that was posted comes to the shared device. -/
theorem Fine.share {lib : Libp2p} (hx : Fine kind hs x) {q : IPFSDevice.Request} {external : Option Bool}
    (known : x.workers[n]? = some (.posted q external)) (turn : IPFSDevice.Turn) :
    Fine kind hs { x with
      workers := x.workers.set n (.shared x.device.state.loads.length)
      device := IPFSDevice.load lib q turn x.device } ∧
    World.Reports told count x { x with
      workers := x.workers.set n (.shared x.device.state.loads.length)
      device := IPFSDevice.load lib q turn x.device } := by
  have step : (IPFSDevice.machine lib).step x.device (.call (q, turn)) =
      some (IPFSDevice.load lib q turn x.device) := rfl
  have asked := IPFSDevice.load_requested lib q turn x.device
  have bound : n < x.workers.length := (List.getElem?_eq_some_iff.mp known).1
  have after := hx.device (hx.atMost.step step) (hx.ready.step step) (hx.keeps.step step) fun i p => IPFSDevice.step_requested step
  constructor
  · refine ⟨?_, fun k h u at_k here => ?_, after.atMost, after.ready, after.keeps, fun k m i left right => ?_⟩
    · rw [List.length_set]
      exact hx.numbered
    · rcases set_cases here with ⟨rfl, rfl⟩ | ⟨_, old⟩
      · exact ⟨q, hx.fits k h _ at_k known, asked⟩
      · exact after.fits k h u at_k old
    · -- the number of the new load is none of those that have come before
      rcases set_cases left with ⟨first, own⟩ | ⟨_, first⟩
      · rcases set_cases right with ⟨second, _⟩ | ⟨_, second⟩
        · rw [first, second]
        · cases own
          exact absurd (hx.shared_known second) (Nat.lt_irrefl _)
      · rcases set_cases right with ⟨_, own⟩ | ⟨_, second⟩
        · cases own
          exact absurd (hx.shared_known first) (Nat.lt_irrefl _)
        · exact hx.apart k m i first second
  · refine .silent fun k => ?_
    by_cases here : k = n
    · subst here
      rw [told_at known, told_at (w := .shared x.device.state.loads.length) (by simp [bound]), Worker.told,
        Worker.told, IPFSDevice.load_reported, IPFSDevice.reported, List.getElem?_eq_none (Nat.le_refl _)]
      rfl
    · simp only [told, List.getElem?_set, Ne.symm here, if_false]
      cases x.workers[k]? with
      | none => rfl
      | some v =>
        cases v with
        | shared i => simp only [Worker.told, IPFSDevice.load_reported]
        | _ => rfl

/-- The step lemma of the workers. -/
theorem Fine.advance {lib : Libp2p} {a : Move} (hx : Fine kind hs x) (h : x.advance lib a = some y) :
    Fine kind hs y ∧ World.Reports told count x y := by
  cases a with
  | file n l =>
    simp only [Loaders.advance] at h
    split at h
    next r known =>
      obtain ⟨t, ht, rfl⟩ := Option.map_eq_some_iff.mp h
      have told : t.state.delivered = r.state.delivered ∨ r.state.delivered = [] ∧ ∃ c, t.state.delivered = [c] := by
        obtain ⟨_, parse, save, _, once⟩ := hx.fits_some known
        exact (once.step ht).2
      refine ⟨hx.put known ?_ (by simp), reports_put known (map_told told)⟩
      rintro k ⟨parse, save, reads, once⟩
      exact ⟨parse, save, reads, (once.step ht).1⟩
    next => cases h
  | https n l =>
    simp only [Loaders.advance] at h
    split at h
    next d known =>
      obtain ⟨t, ht, rfl⟩ := Option.map_eq_some_iff.mp h
      have told : t.state.delivered = d.state.delivered ∨ d.state.delivered = [] ∧ ∃ c, t.state.delivered = [c] := by
        obtain ⟨_, parse, save, _, sane, _⟩ := hx.fits_some known
        exact HTTPDevice.step_told sane.balanced ht
      refine ⟨hx.put known ?_ (by simp), reports_put known (map_told told)⟩
      rintro k ⟨parse, save, reads, sane, flags⟩
      exact ⟨parse, save, reads, sane.step ht, HTTPDevice.step_flags flags ht⟩
    next => cases h
  | post n turn =>
    simp only [Loaders.advance] at h
    split at h
    next err known =>
      obtain rfl := Option.some.inj h
      exact ⟨hx.put known (fun k fits => fits) (by simp), reports_put known (.inr ⟨rfl, _, rfl⟩)⟩
    next q dht known =>
      obtain rfl := Option.some.inj h
      have step : (IPFSDevice.machine lib).step (IPFSDevice.created dht) (.call (q, turn)) =
          some (IPFSDevice.load lib q turn (IPFSDevice.created dht)) := rfl
      refine ⟨hx.put known (fun k fits => ?_) (by simp), reports_put known (.inl ?_)⟩
      · have atMost : IPFSDevice.AtMost (IPFSDevice.created dht) := fun i =>
          Nat.le_of_eq (IPFSDevice.balanced_created dht i)
        have keeps : IPFSDevice.Keeps (IPFSDevice.created dht) := ⟨by simp [IPFSDevice.created], by simp [IPFSDevice.created]⟩
        have ready : IPFSDevice.Ready (IPFSDevice.created dht) := by simp [IPFSDevice.Ready, IPFSDevice.created]
        exact ⟨q, fits, IPFSDevice.load_requested lib q turn (IPFSDevice.created dht), atMost.step step,
          ready.step step, keeps.step step⟩
      · change (IPFSDevice.reported 0 (IPFSDevice.load lib q turn (IPFSDevice.created dht)).state).map Outcome.read = []
        rw [IPFSDevice.load_reported]
        rfl
    next q known =>
      obtain rfl := Option.some.inj h
      exact hx.share known turn
    next => cases h
  | own n l =>
    simp only [Loaders.advance] at h
    split at h
    next s known =>
      obtain ⟨t, ht, rfl⟩ := Option.map_eq_some_iff.mp h
      have step := serve_step ht
      have told : IPFSDevice.reported 0 t.state = IPFSDevice.reported 0 s.state ∨
          IPFSDevice.reported 0 s.state = [] ∧ ∃ c, IPFSDevice.reported 0 t.state = [c] := by
        obtain ⟨_, q, _, _, atMost, _, _⟩ := hx.fits_some known
        rcases IPFSDevice.step_reported atMost step with quiet | ⟨i, c, none, told, others⟩
        · exact .inl (quiet 0)
        · by_cases here : 0 = i
          · subst here
            exact .inr ⟨none, c, told⟩
          · exact .inl (others 0 here)
      refine ⟨hx.put known ?_ (by simp), reports_put known (map_told told)⟩
      rintro k ⟨q, reads, asked, atMost, ready, keeps⟩
      exact ⟨q, reads, IPFSDevice.step_requested step asked, atMost.step step, ready.step step, keeps.step step⟩
    next => cases h
  | device l =>
    obtain ⟨t, ht, rfl⟩ := Option.map_eq_some_iff.mp h
    have step := serve_step ht
    refine ⟨hx.device (hx.atMost.step step) (hx.ready.step step) (hx.keeps.step step) fun i q => IPFSDevice.step_requested step, ?_⟩
    exact reports_device hx (IPFSDevice.step_reported hx.atMost step)
  | mnn n l =>
    simp only [Loaders.advance] at h
    split at h
    next s known =>
      obtain ⟨t, ht, rfl⟩ := Option.map_eq_some_iff.mp h
      obtain ⟨_, _, _, left⟩ := hx.fits_some known
      have news : t.state.handleWrites = s.state.handleWrites ∨ s.state.handleWrites = 0 ∧ t.state.handleWrites = 1 :=
        ((left.on x.files.disk).step ht).2
      refine ⟨(hx.put known ?_ (by simp)).files _,
        reports_files (reports_put (v := .mnn t) known (replicate_told news)) _⟩
      rintro k ⟨data, saves, left⟩
      exact ⟨data, saves, ((left.on x.files.disk).step ht).1⟩
    next => cases h
  | ipfs n a =>
    simp only [Loaders.advance] at h
    split at h
    next s called known =>
      obtain ⟨next, ht, rfl⟩ := Option.map_eq_some_iff.mp h
      refine ⟨(hx.put known ?_ (by simp)).files _, reports_files (reports_put (v := .ipfs next.1 called) known (.inl rfl)) _⟩
      rintro k ⟨data, saves, left, ran⟩
      obtain ⟨next, posts⟩ := left.step (IPFSSaver.Save.step_steps ht)
      exact ⟨data, saves, next, by omega⟩
    next => cases h
  | handleWrite n =>
    simp only [Loaders.advance] at h
    split at h
    next s called known =>
      split at h
      next posted =>
        obtain rfl := Option.some.inj h
        obtain ⟨_, _, _, left, _⟩ := hx.fits_some known
        have once := left.atMost
        obtain rfl : called = 0 := by omega
        refine ⟨hx.put known ?_ (by simp), reports_put known (.inr ⟨rfl, _, rfl⟩)⟩
        rintro k ⟨data, saves, left, _⟩
        exact ⟨data, saves, left, posted⟩
      next => cases h
    next => cases h
  | sftp n l =>
    simp only [Loaders.advance] at h
    split at h
    next s known =>
      obtain ⟨t, ht, rfl⟩ := Option.map_eq_some_iff.mp h
      obtain ⟨_, _, _, left⟩ := hx.fits_some known
      refine ⟨hx.put known ?_ (by simp), reports_put known (replicate_told (left.step ht).2)⟩
      rintro k ⟨data, saves, left⟩
      exact ⟨data, saves, (left.step ht).1⟩
    next => cases h

/-- What a worker is like when it is called. -/
structure New (kind : Str → Saver) (device : IPFSDevice.Serving) (h : Handler) (w : Worker) : Prop where
  fits : w.Fits kind device h
  untold : w.told device = []
  unshared : ∀ i, w ≠ .shared i
  unowned : ∀ s, w ≠ .own s
  kept : ∀ s called, w = .ipfs s called → s.kept

theorem request_flags {codec : IPFSLoader.Codec} {external device : Bool} {filename : Str} {parse save : Bool}
    {q : IPFSDevice.Request} (h : IPFSLoader.loadASync codec external device filename parse save = .request q) :
    q.parse = parse ∧ q.save = save := by
  have asked (cid : CID) (file : Str) (own : IPFSLoader.Posted.request ⟨cid, file, 0, parse, save⟩ = .request q) :
      q.parse = parse ∧ q.save = save := by
    cases own
    exact ⟨rfl, rfl⟩
  unfold IPFSLoader.loadASync at h
  split at h
  next => cases h
  next o _ =>
    split at h
    next =>
      split at h
      next => cases h
      next cid _ =>
        split at h
        next => exact asked cid o.file h
        next => cases h
    next =>
      split at h
      next =>
        split at h
        next => cases h
        next cid _ => exact asked cid o.file h
      next => cases h

theorem load_new {codec : IPFSLoader.Codec} {call : Load} {filePath : Str} {b : Meets} {device : IPFSDevice.Serving}
    (h : load codec call filePath b = some w) (op : Nat) (suffix : Str) :
    New kind device (.handleRead op call filePath suffix) w := by
  unfold load at h
  split at h
  next =>
    obtain rfl := Option.some.inj h
    refine ⟨⟨_, _, ⟨rfl, rfl⟩, MNNLoader.once_loadASync filePath call.parse call.save b.opened⟩, ?_, by simp, by simp, by simp⟩
    cases b.opened <;> rfl
  next =>
    split at h
    next =>
      split at h
      next d loaded =>
        obtain rfl := Option.some.inj h
        refine ⟨⟨_, _, ⟨rfl, rfl⟩, (HTTPDevice.loadASync_sane loaded).1, HTTPDevice.loadASync_flags loaded⟩, ?_,
          by simp, by simp, by simp⟩
        rcases HTTPDevice.loadASync_cases loaded with ⟨e, rfl⟩ | ⟨_, rfl⟩
        · rfl
        · rfl
      next => cases h
    next =>
      split at h
      next =>
        split at h
        next e _ =>
          obtain rfl := Option.some.inj h
          exact ⟨⟨_, _, rfl, rfl⟩, rfl, by simp, by simp, by simp⟩
        next q posted =>
          obtain rfl := Option.some.inj h
          obtain ⟨parse, save⟩ := request_flags posted
          exact ⟨⟨parse.symm, save.symm⟩, rfl, by simp, by simp, by simp⟩
      next => cases h

theorem save_new {name filename : Str} {data : ResultType} {saveLocation : Option Str} {b : Meets} {f g : Storage}
    {device : IPFSDevice.Serving} {h : Handler} (saves : h.saver = some (name, data))
    (saved : save (kind name) filename data saveLocation b f = some (w, g)) : New kind device h w := by
  unfold save at saved
  split at saved
  next same =>
    obtain ⟨s, hs, eq⟩ := Option.map_eq_some_iff.mp saved
    obtain ⟨rfl, -⟩ := Prod.mk.inj eq
    refine ⟨⟨data, ⟨name, saves, same⟩, MNNSaver.left_returned hs⟩, ?_, by simp, by simp, by simp⟩
    rw [Worker.told, MNNSaver.returned_untold hs]
    rfl
  next same =>
    obtain ⟨⟨s, t⟩, hs, eq⟩ := Option.map_eq_some_iff.mp saved
    obtain ⟨rfl, -⟩ := Prod.mk.inj eq
    obtain ⟨left, kept⟩ := IPFSSaver.left_returned hs
    refine ⟨⟨data, ⟨name, saves, same⟩, left, Nat.zero_le _⟩, rfl, by simp, by simp, ?_⟩
    rintro _ _ ⟨⟩
    exact kept
  next same =>
    obtain ⟨s, hs, eq⟩ := Option.map_eq_some_iff.mp saved
    obtain ⟨rfl, -⟩ := Prod.mk.inj eq
    refine ⟨⟨data, ⟨name, saves, same⟩, SFTPSaver.left_returned hs⟩, ?_, by simp, by simp, by simp⟩
    rw [Worker.told, SFTPSaver.returned_untold hs]
    rfl

/-- Every callback is given to a new worker. -/
theorem start_new {codec : IPFSLoader.Codec} {h : Handler} {b : Meets} (begun : start codec kind h b x = some y) :
    ∃ w f, y = x.call w f ∧ New kind x.device h w := by
  have saved {name filename : Str} {data : ResultType} {saveLocation : Option Str} (saves : h.saver = some (name, data))
      (begun : (save (kind name) filename data saveLocation b x.files).map (fun p => x.call p.1 p.2) = some y) :
      ∃ w f, y = x.call w f ∧ New kind x.device h w := by
    obtain ⟨p, hp, rfl⟩ := Option.map_eq_some_iff.mp begun
    exact ⟨p.1, p.2, rfl, save_new saves hp⟩
  cases h with
  | handleRead op call filePath suffix =>
    obtain ⟨w, hw, rfl⟩ := Option.map_eq_some_iff.mp begun
    exact ⟨w, x.files, rfl, load_new hw op suffix⟩
  | nestedWrite op ioc savetype suffix buffers => exact saved rfl begun
  | handleWrite op call filePath suffix => exact saved rfl begun

theorem Fine.call (hx : Fine kind hs x) {h : Handler} (new : New kind x.device h w) (f : Storage) :
    Fine kind (hs ++ [h]) (x.call w f) ∧ ∀ n, (x.call w f).told n = x.told n := by
  have behind (n : Nat) (v : Worker) (here : (x.workers ++ [w])[n]? = some v) :
      x.workers[n]? = some v ∨ n = x.workers.length ∧ v = w := by
    rcases Nat.lt_or_ge n x.workers.length with old | last
    · rw [List.getElem?_append_left old] at here
      exact .inl here
    · have bound := (List.getElem?_eq_some_iff.mp here).1
      rw [List.length_append, List.length_singleton] at bound
      obtain rfl : n = x.workers.length := by omega
      rw [List.getElem?_concat_length] at here
      exact .inr ⟨rfl, (Option.some.inj here).symm⟩
  refine ⟨⟨?_, fun n k v at_n here => ?_, hx.atMost, hx.ready, hx.keeps, fun n k i left right => ?_⟩, fun n => ?_⟩
  · simp [Loaders.call, hx.numbered]
  · rcases behind n v here with old | ⟨rfl, rfl⟩
    · have bound : n < hs.length := by
        rw [hx.numbered]
        exact (List.getElem?_eq_some_iff.mp old).1
      rw [List.getElem?_append_left bound] at at_n
      exact hx.fits n k v at_n old
    · rw [← hx.numbered, List.getElem?_concat_length] at at_n
      obtain rfl := Option.some.inj at_n
      exact new.fits
  · rcases behind n _ left with first | ⟨_, own⟩
    · rcases behind k _ right with second | ⟨_, own⟩
      · exact hx.apart n k i first second
      · exact absurd own.symm (new.unshared i)
    · exact absurd own.symm (new.unshared i)
  · rcases Nat.lt_or_ge n x.workers.length with old | last
    · simp [told, Loaders.call, List.getElem?_append_left old]
    · have none : x.told n = [] := by rw [told, List.getElem?_eq_none last]
      rw [none]
      cases here : (x.call w f).workers[n]? with
      | none => rw [told, here]
      | some v =>
        rcases behind n v here with old | ⟨_, rfl⟩
        · exact absurd (List.getElem?_eq_some_iff.mp old).1 (by omega)
        · rw [told_at here]
          exact new.untold

end Loaders

/-- The loaders and savers tell each callback of the manager at most once, and what fits it. -/
theorem loaders_tell (lib : Libp2p) (codec : IPFSLoader.Codec) (kind : Str → Saver) :
    (loaders lib codec kind).Tells (Loaders.Fine kind) Handler.fits := by
  refine World.tells_watch ?_ (fun hs x a y hx h => hx.advance h) ?_ ?_
  · intro hs x n hx later
    rw [Loaders.told, List.getElem?_eq_none (by rw [← hx.numbered]; exact later)]
  · intro hs x n h e hx at_n mem
    unfold Loaders.told at mem
    split at mem
    next w known => exact (hx.fits n h w at_n known).told hx.keeps mem
    next => cases mem
  · intro hs h b x y hx begun
    obtain ⟨w, f, rfl, new⟩ := Loaders.start_new begun
    exact hx.call new f

end FileManager

end AsyncIOManager
