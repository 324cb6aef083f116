import AsyncIOManager.Carried
import AsyncIOManager.HTTPDownload
import AsyncIOManager.IPFSCommon
import AsyncIOManager.MNNLoader
import AsyncIOManager.WSCommon

namespace AsyncIOManager

open Reactor Text

/-- A report that is a failure or one file of the name. -/
def OneFile (name : Str) (c : ReadCall) : Prop :=
  ∀ buffers, c.buffers = .success buffers → ∃ content, buffers = some ⟨[name], [content]⟩

theorem oneFile_failure (name : Str) (e : ErrorCode) : OneFile name (.failure e) := by
  intro buffers success
  cases success

theorem oneFile_success (name content : Str) (parse save : Bool) :
    OneFile name ⟨.success (some ⟨[name], [content]⟩), parse, save⟩ := by
  intro buffers success
  cases success
  exact ⟨content, rfl⟩

theorem all_oneFile {name : Str} {delivered : List ReadCall} (h : ∀ c ∈ delivered, OneFile name c)
    {c : ReadCall} (one : OneFile name c) : ∀ d ∈ delivered ++ [c], OneFile name d := by
  intro d hd
  rcases List.mem_append.mp hd with old | new
  · exact h d old
  · rw [List.mem_singleton.mp new]
    exact one

namespace HTTPDevice

/-- A download whose devices are all for one path, and that has delivered no other file. -/
abbrev Serves (path : Str) : Download → Prop :=
  Carries (fun _ h => ∀ d, h.device = some d → d.httpPath = path)
    fun p => ∀ c ∈ p.delivered, OneFile (filename path) c

variable {path : Str} {s t : Download}

theorem Serves.run {h : Handler} (own : ∀ d, h.device = some d → d.httpPath = path) (hs : Serves path s)
    (e : Ec) (headerbuff : Str) : Serves path (h.run e headerbuff s) := by
  refine run_carries hs ?_ ?_
  · intro x started d hd
    rcases Handler.next_device started with same | none
    · exact own d (same.symm.trans hd)
    · rw [none] at hd
      cases hd
  · rcases run_delivered h e headerbuff s with eq | ⟨err, eq⟩ | ⟨self, content, rfl, eq⟩
    · rw [eq]
      exact hs.state
    · rw [eq]
      exact all_oneFile hs.state (oneFile_failure _ err)
    · rw [eq, own self rfl]
      exact all_oneFile hs.state (oneFile_success _ _ _ _)

/-- What a load of a URL can report as success. -/
def Delivers (url : Str) (data : Payload) : Prop :=
  ∃ parse save resolve sni d s c, HTTPLoader.loadASync url parse save resolve sni = .ok d ∧
    Reaches machine.step Free d s ∧ c ∈ s.state.delivered ∧ c.buffers = .success (some data)

/-- A download whose whole response has come. -/
def responded (self : HTTPDevice) : Download :=
  ⟨{}, [⟨.deadline .connect, some .operationAborted⟩, ⟨.deadline .handshake, some .operationAborted⟩,
    ⟨.deadline .get, none⟩, ⟨.read self, some .eof⟩]⟩

theorem reaches_responded (self : HTTPDevice) :
    Reaches machine.step Free ((armDeadline .connect idle).start (.connect self)) (responded self) := by
  let requested : Download :=
    ⟨{}, [⟨.deadline .connect, some .operationAborted⟩, ⟨.deadline .handshake, some .operationAborted⟩,
      ⟨.deadline .get, none⟩, ⟨.write self (sent self.getRequest), none⟩]⟩
  have asked : exec machine.step ((armDeadline .connect idle).start (.connect self))
      [.finish 1 .success, .run 1 [], .finish 2 .success, .run 2 []] = some requested := rfl
  have answered : exec machine.step requested [.finish 3 .success, .run 3 [], .finish 3 .eof] =
      some (responded self) := rfl
  exact (reaches_of_exec asked).trans (reaches_of_exec answered)

theorem delivers_of_parsed {url : Str} (parsed : (parseHTTPUrl url).1 = true) (content : Str) :
    Delivers url ⟨[filename (parseHTTPUrl url).2.path], [content]⟩ := by
  let o := (parseHTTPUrl url).2
  let self : HTTPDevice := ⟨o.host, o.path, o.port, false, true⟩
  let file : ReadCall := ⟨.success (some ⟨[filename o.path], [content]⟩), false, true⟩
  let headerbuff : Str := "\r\n\r\n".toList ++ content
  have load : HTTPLoader.loadASync url false true .resolved none =
      .ok ((armDeadline .connect idle).start (.connect self)) := by
    simp only [HTTPLoader.loadASync, parsed, if_true]
    rfl
  have found : find "\r\n\r\n".toList headerbuff = some 0 := by simp [headerbuff, find]
  have read : machine.step (responded self) (.run 3 headerbuff) =
      some (readHandler self .eof headerbuff { responded self with pool := (responded self).pool.take 3 }) := rfl
  have delivered : (readHandler self .eof headerbuff
      { responded self with pool := (responded self).pool.take 3 }).state.delivered = [file] := by
    rcases readHandler_done self (e := .eof) headerbuff
      { responded self with pool := (responded self).pool.take 3 } (by simp) with ⟨none, _⟩ | ⟨headerEnd, at_, eq⟩
    · rw [found] at none
      cases none
    · obtain rfl := Option.some.inj (found.symm.trans at_)
      rw [eq]
      rfl
  exact ⟨_, _, _, _, _, _, file, load, (reaches_responded self).trans (.one trivial read),
    by rw [delivered]; simp, rfl⟩

theorem delivered_file {url : Str} {data : Payload} (h : Delivers url data) :
    (parseHTTPUrl url).1 = true ∧ ∃ content, data = ⟨[filename (parseHTTPUrl url).2.path], [content]⟩ := by
  obtain ⟨parse, save, resolve, sni, d, s, c, load, reach, mem, success⟩ := h
  have file {path : Str} (hd : Serves path d) : ∃ content, data = ⟨[filename path], [content]⟩ := by
    have served : Serves path s := Carries.reaches
      (fun _ e o _ _ own hs run => Option.some.inj run ▸ Serves.run own hs e o) (fun a => a.elim) reach hd
    obtain ⟨content, same⟩ := served.state c mem _ success
    exact ⟨content, Option.some.inj same⟩
  have posted (path : Str) (e : ErrorCode) : Serves path (idle.post (.completion e) .success) :=
    Carries.post ⟨by simp [idle], by simp [idle]⟩ (by simp [Handler.device])
  rcases loadASync_cases load with ⟨e, rfl⟩ | ⟨parsed, rfl⟩
  · obtain ⟨_, a⟩ := file (posted ['a'] e)
    obtain ⟨_, b⟩ := file (posted ['b'] e)
    rw [a] at b
    exact absurd (List.cons.inj (congrArg Payload.first b)).1 (by decide)
  · refine ⟨parsed, file ?_⟩
    have armed : Serves (parseHTTPUrl url).2.path (armDeadline .connect idle) :=
      Carries.start ⟨by simp [idle], by simp [idle]⟩ (by simp [Handler.device])
    refine armed.start ?_
    rintro _ ⟨⟩
    rfl

end HTTPDevice

namespace WSDevice

/-- The path of the device that a handler belongs to. -/
def Handler.path : Handler → Option Str
  | connect self _ => some self.wsPath
  | handshake self => some self.wsPath
  | wsHandshake self => some self.wsPath
  | write self _ => some self.wsPath
  | read self => some self.wsPath
  | completion _ => none

abbrev Serves (path : Str) : Download → Prop :=
  Carries (fun _ h => ∀ p, h.path = some p → p = path) fun p => ∀ c ∈ p.delivered, OneFile (filename path) c

variable {path : Str} {s t : Download}

theorem Serves.handleRead (h : Serves path s) {c : ReadCall} (one : OneFile (filename path) c) :
    Serves path (handleRead c s) :=
  Carries.modify (f := fun p => { p with delivered := p.delivered ++ [c] }) h (fun _ own => own)
    (all_oneFile h.state one)

theorem Serves.run {h : Handler} (own : ∀ p, h.path = some p → p = path) (hs : Serves path s)
    (e : Ec) (buffer : Str) : Serves path (h.run e buffer s) := by
  have fails (err : ErrorCode) : Serves path (WSDevice.handleRead (.failure err) s) :=
    Serves.handleRead hs (oneFile_failure _ err)
  cases h with
  | connect self endpoints =>
    cases e with
    | success => exact Carries.start hs own
    | error => exact fails _
  | handshake self =>
    cases e with
    | success => exact Carries.start hs own
    | error => exact fails _
  | wsHandshake self =>
    cases e with
    | success => exact Carries.start hs own
    | error => exact fails _
  | write self request =>
    cases e with
    | success => exact Carries.start hs own
    | error => exact hs
  | read self =>
    cases e with
    | success =>
      refine Serves.handleRead hs ?_
      rw [own _ rfl]
      exact oneFile_success _ _ _ _
    | error => exact fails _
  | completion err => exact fails err

def Delivers (url : Str) (data : Payload) : Prop :=
  ∃ parse save resolve s c, Reaches machine.step Free (WSLoader.loadASync url parse save resolve) s ∧
    c ∈ s.state.delivered ∧ c.buffers = .success (some data)

theorem delivers_of_parsed {url : Str} (parsed : (parseHTTPUrl url).1 = true) (content : Str) :
    Delivers url ⟨[filename (parseHTTPUrl url).2.path], [content]⟩ := by
  let o := (parseHTTPUrl url).2
  let self : WSDevice := ⟨o.host, o.path, o.port, false, true⟩
  let buffer : Str := content ++ List.replicate 5 ' '
  have load : WSLoader.loadASync url false true (.resolved 1) = idle.start (.connect self 1) := by
    simp only [WSLoader.loadASync, parsed, if_true]
    rfl
  let requested : Download := ⟨{}, [⟨.read self, some .success⟩]⟩
  have asked : exec machine.step (idle.start (.connect self 1))
      [.finish 0 .success, .run 0 [], .finish 0 .success, .run 0 [], .finish 0 .success, .run 0 [],
        .finish 0 .success, .run 0 [], .finish 0 .success] = some requested := rfl
  have read : machine.step requested (.run 0 buffer) = some (readHandler self .success buffer idle) := rfl
  have reach : Reaches machine.step Free (idle.start (.connect self 1)) (readHandler self .success buffer idle) :=
    (reaches_of_exec asked).trans (.one trivial read)
  refine ⟨_, _, _, _, ⟨.success (some ⟨[filename o.path], [content]⟩), false, true⟩, load ▸ reach, ?_, rfl⟩
  simp [readHandler, handleRead, idle, buffer, self]

theorem delivered_file {url : Str} {data : Payload} (h : Delivers url data) :
    (parseHTTPUrl url).1 = true ∧ ∃ content, data = ⟨[filename (parseHTTPUrl url).2.path], [content]⟩ := by
  obtain ⟨parse, save, resolve, s, c, reach, mem, success⟩ := h
  have file {path : Str} (hd : Serves path (WSLoader.loadASync url parse save resolve)) :
      ∃ content, data = ⟨[filename path], [content]⟩ := by
    have served : Serves path s := Carries.reaches
      (fun _ e o _ _ own hs run => Option.some.inj run ▸ Serves.run own hs e o) (fun a => a.elim) reach hd
    obtain ⟨content, same⟩ := served.state c mem _ success
    exact ⟨content, Option.some.inj same⟩
  have posted (path : Str) (e : ErrorCode) : Serves path (idle.post (.completion e) .success) :=
    Carries.post ⟨by simp [idle], by simp [idle]⟩ (by simp [Handler.path])
  cases parsed : (parseHTTPUrl url).1 with
  | false =>
    have same : WSLoader.loadASync url parse save resolve =
        idle.post (.completion (.wsLoader .invalidUrl)) .success := by
      simp only [WSLoader.loadASync, parsed, Bool.false_eq_true, if_false]
    obtain ⟨_, a⟩ := file (same ▸ posted ['a'] _)
    obtain ⟨_, b⟩ := file (same ▸ posted ['b'] _)
    rw [a] at b
    exact absurd (List.cons.inj (congrArg Payload.first b)).1 (by decide)
  | true =>
    refine ⟨rfl, file ?_⟩
    simp only [WSLoader.loadASync, parsed, if_true, startWSDownload]
    cases resolve with
    | resolved endpoints => exact Carries.start ⟨by simp [idle], by simp [idle]⟩ (by simp [Handler.path])
    | systemError | stdException | unknownException => exact Carries.start (posted _ _) (by simp [Handler.path])

end WSDevice

namespace MNNLoader

def Delivers (name : Str) (data : Payload) : Prop :=
  ∃ parse save opened s c, Reaches machine.step Free (loadASync name parse save opened) s ∧
    c ∈ s.state.delivered ∧ c.buffers = .success (some data)

/-- Only a read of a file has come to its end, and only that is delivered. -/
structure Serves (name : Str) (s : Reading) : Prop where
  reads : ∀ x ∈ s.pool, ∀ n parse save, x.handler = .read n parse save →
    n = name ∧ (x.outcome = some .eof → MNNSaver.namesFile name = true)
  delivered : ∀ c ∈ s.state.delivered, OneFile (filename name) c ∧
    ∀ buffers, c.buffers = .success buffers → MNNSaver.namesFile name = true

theorem Serves.handleRead {name : Str} {s : Reading} (h : Serves name s) {c : ReadCall}
    (one : OneFile (filename name) c)
    (regular : ∀ buffers, c.buffers = .success buffers → MNNSaver.namesFile name = true) :
    Serves name (handleRead c s) := by
  refine ⟨h.reads, ?_⟩
  intro d hd
  rcases List.mem_append.mp hd with old | new
  · exact h.delivered d old
  · rw [List.mem_singleton.mp new]
    exact ⟨one, regular⟩

theorem Serves.failed {name : Str} {s : Reading} (h : Serves name s) (e : ErrorCode) :
    Serves name (MNNLoader.handleRead (.failure e) s) := by
  refine h.handleRead (oneFile_failure _ e) ?_
  intro buffers success
  cases success

theorem Serves.step {name : Str} {s t : Reading} {l : Label Ec Str Empty} (h : Serves name s)
    (step : machine.step s l = some t) : Serves name t := by
  rcases Machine.step_cases step with ⟨k, e, x, rfl, hk, ends, rfl⟩ | ⟨k, o, x, e, rest, rfl, hk, hr⟩ | ⟨a, _, _⟩
  · refine ⟨?_, h.delivered⟩
    intro y hy n parse save read
    rcases List.mem_or_eq_of_mem_set hy with old | rfl
    · exact h.reads y old n parse save read
    · obtain ⟨rfl, _⟩ := h.reads _ (List.mem_of_getElem? hk) n parse save read
      refine ⟨rfl, ?_⟩
      rintro ⟨⟩
      obtain rfl : x = .read n parse save := read
      simpa [machine, Handler.completes] using ends
  · obtain rfl := Option.some.inj hr
    have left : Serves name { s with pool := rest } :=
      ⟨fun y hy => h.reads y (takeAt_rest_mem hk hy), h.delivered⟩
    have own := h.reads _ (takeAt_mem hk)
    cases x with
    | read n parse save =>
      obtain ⟨rfl, regular⟩ := own n parse save rfl
      cases e with
      | eof => exact left.handleRead (oneFile_success _ _ _ _) fun _ _ => regular rfl
      | other => exact left.failed _
    | completion err => exact left.failed err
  · exact a.elim

/-- What is loaded from the file system is one file, under the last part of its path. -/
theorem delivered_file {name : Str} {data : Payload} (h : Delivers name data) :
    MNNSaver.namesFile name = true ∧ ∃ content, data = ⟨[filename name], [content]⟩ := by
  obtain ⟨parse, save, opened, s, c, reach, mem, success⟩ := h
  have start : Serves name (loadASync name parse save opened) := by
    cases opened with
    | true =>
      refine ⟨?_, by simp [loadASync]⟩
      intro x hx n p v read
      obtain rfl := List.mem_singleton.mp hx
      cases read
      exact ⟨rfl, by simp⟩
    | false =>
      refine ⟨?_, by simp [loadASync]⟩
      intro x hx n p v read
      obtain rfl := List.mem_singleton.mp hx
      cases read
  have served : Serves name s := reach.invariant (fun _ _ _ ht _ hs => ht.step hs) start
  obtain ⟨one, regular⟩ := served.delivered c mem
  obtain ⟨content, same⟩ := one _ success
  exact ⟨regular _ success, content, Option.some.inj same⟩

theorem delivers_of_named {name : Str} (named : MNNSaver.namesFile name = true) (content : Str) :
    Delivers name ⟨[filename name], [content]⟩ := by
  have read : machine.step (loadASync name false false true) (.finish 0 .eof) =
      some ⟨{}, [⟨.read name false false, some .eof⟩]⟩ := by
    simp [loadASync, Machine.step, machine, Handler.completes, named]
  have run : machine.step ⟨{}, [⟨.read name false false, some .eof⟩]⟩ (.run 0 content) =
      some ⟨{ delivered := [⟨.success (some ⟨[filename name], [content]⟩), false, false⟩] }, []⟩ := rfl
  refine ⟨false, false, true, _, _, (Reaches.one trivial read).next trivial run, List.mem_singleton_self _, rfl⟩

/-- A path without a NUL whose file can be opened has a last part. -/
theorem filename_of_named {name : Str} (plain : nul ∉ name) (named : MNNSaver.namesFile name = true) :
    filename name ≠ [] := by
  simp only [MNNSaver.namesFile, cStr_plain plain, Bool.and_eq_true, decide_eq_true_eq] at named
  exact named.1.1

end MNNLoader

namespace IPFSDevice

/-- The file name that the load `i` has come with. -/
def name (d : Device) (i : Nat) : Option Str := d.loads[i]?.map fun load => load.request.filename

/-- A report that is a failure or a converted content. -/
def Converted (filename : Str) (c : ReadCall) : Prop :=
  ∀ buffers, c.buffers = .success buffers → ∃ content, buffers = some (unixFSPayload content filename)

def Fits (d : Device) : Handler → Prop
  | .findProviders i q => name d i = some q.filename
  | .retry i q => name d i = some q.filename
  | .requestContent i filename _ _ => name d i = some filename
  | .handleRead i c => ∃ filename, name d i = some filename ∧ Converted filename c

abbrev Serves : Serving → Prop :=
  Carries Fits fun d => ∀ load ∈ d.loads, ∀ c ∈ load.delivered, Converted load.request.filename c

variable {lib : Libp2p} {s t : Serving} {i : Nat} {q : Request}

theorem Fits.grows {d e : Device} (same : ∀ i filename, name d i = some filename → name e i = some filename)
    {h : Handler} (fits : Fits d h) : Fits e h := by
  cases h with
  | findProviders i q => exact same i _ fits
  | retry i q => exact same i _ fits
  | requestContent i filename parse save => exact same i _ fits
  | handleRead i c =>
    obtain ⟨filename, named, converted⟩ := fits
    exact ⟨filename, same i _ named, converted⟩

theorem converted_failure (filename : Str) (e : ErrorCode) : Converted filename (.failure e) := by
  intro buffers success
  cases success

theorem Serves.postFailure (h : Serves s) {filename : Str} (own : name s.state i = some filename) :
    Serves (postFailure i s) :=
  Carries.post h ⟨filename, own, converted_failure _ _⟩

theorem Serves.requestBlockMain (h : Serves s) (own : name s.state i = some q.filename) :
    Serves (requestBlockMain lib i q s) := by
  simp only [IPFSDevice.requestBlockMain, value]
  split
  next => exact Carries.start h own
  next => exact h

theorem Serves.startFindingPeers (h : Serves s) (own : name s.state i = some q.filename) (turn : Turn) :
    Serves (startFindingPeers lib i q turn s) := by
  simp only [IPFSDevice.startFindingPeers, value]
  split
  next =>
    split
    next =>
      split
      next => exact Carries.start h own
      next => exact Serves.postFailure h own
    next => exact h
  next => exact Serves.requestBlockMain h own

theorem Serves.providersHandler (h : Serves s) (own : name s.state i = some q.filename)
    (res : Option (List PeerInfo)) : Serves (providersHandler lib i q res s) := by
  unfold IPFSDevice.providersHandler
  split
  next => exact Serves.postFailure h own
  next => exact (Carries.cancel h Handler.isRetry .aborted).start own
  next p ps =>
    have added : Serves (s.modify fun d => { d with
        providers := d.providers ++ [(q.cid, peerInfos lib ((p :: ps).flatMap PeerInfo.addresses))] }) :=
      Carries.modify h (fun _ fits => Fits.grows (fun _ _ named => named) fits) h.state
    simp only [addAddresses, value]
    split
    next => exact Serves.requestBlockMain (q := { q with addressoffset := 0 }) added own
    next => exact added

theorem Serves.contentHandler (h : Serves s) {filename : Str} (own : name s.state i = some filename)
    (parse save : Bool) (res : Option UnixFSContent) (turn : Turn) :
    Serves (contentHandler i filename parse save res turn s) := by
  cases res with
  | none => exact Serves.postFailure h own
  | some content =>
    simp only [IPFSDevice.contentHandler, convertUnixFSContentToResult]
    split
    next =>
      refine Carries.post h ⟨filename, own, ?_⟩
      intro buffers success
      cases success
      exact ⟨content, rfl⟩
    next =>
      refine Carries.post h ⟨filename, own, ?_⟩
      intro buffers success
      cases success

theorem Serves.handleRead (h : Serves s) {filename : Str} {c : ReadCall} (own : name s.state i = some filename)
    (converted : Converted filename c) : Serves (handleRead i c s) := by
  refine Carries.modify h ?_ ?_
  · intro k fits
    refine Fits.grows ?_ fits
    intro j f named
    have same := congrArg (Option.map Request.filename) (handleRead_requests i c s j)
    rw [Option.map_map, Option.map_map] at same
    exact same.trans named
  · have named (load : Load) (known : s.state.loads[i]? = some load) : load.request.filename = filename := by
      simpa [name, known] using own
    exact handleRead_each (D := fun q c => Converted q.filename c) h.state fun load known =>
      (named load known).symm ▸ converted

theorem Serves.run {h : Handler} (fits : Fits s.state h) (hs : Serves s) {e : Ec} {turn : Turn}
    (run : h.run lib e turn s = some t) : Serves t := by
  cases h with
  | findProviders i q =>
    cases e with
    | providers res => exact Option.some.inj run ▸ Serves.providersHandler hs fits res
    | _ => cases run
  | retry i q =>
    cases e with
    | expired => exact Option.some.inj run ▸ Serves.startFindingPeers hs fits turn
    | aborted => exact Option.some.inj run ▸ hs
    | _ => cases run
  | requestContent i filename parse save =>
    cases e with
    | content res => exact Option.some.inj run ▸ Serves.contentHandler hs fits parse save res turn
    | _ => cases run
  | handleRead i c =>
    obtain ⟨filename, own, converted⟩ := fits
    cases e with
    | posted => exact Option.some.inj run ▸ Serves.handleRead hs own converted
    | _ => cases run

theorem Serves.load (h : Serves s) (q : Request) (turn : Turn) : Serves (load lib q turn s) := by
  have added : Serves (s.modify fun d => { d with loads := d.loads ++ [{ request := q }] }) := by
    refine Carries.modify h ?_ ?_
    · intro k fits
      refine Fits.grows ?_ fits
      intro j f named
      have known : j < s.state.loads.length := by
        by_contra beyond
        simp [name, List.getElem?_eq_none (Nat.not_lt.mp beyond)] at named
      simpa [name, List.getElem?_append_left known] using named
    · intro load mem
      rcases List.mem_append.mp mem with old | new
      · exact h.state load old
      · rw [List.mem_singleton.mp new]
        simp
  exact Serves.startFindingPeers added (by simp [name]) turn

/-- What a load with a file name can report as success. -/
def Delivers (file : Str) (data : Payload) : Prop :=
  ∃ lib dht s load c, Reaches (machine lib).step Free (created dht) s ∧ load ∈ s.state.loads ∧
    load.request.filename = file ∧ c ∈ load.delivered ∧ c.buffers = .success (some data)

/-- Exactly the conversions of all contents are delivered. -/
theorem delivers_iff (file : Str) (data : Payload) :
    Delivers file data ↔ ∃ content, data = unixFSPayload content file := by
  constructor
  · rintro ⟨lib, dht, s, load, c, reach, mem, rfl, delivered, success⟩
    have served : Serves s := Carries.reaches (m := machine lib)
      (fun _ _ _ _ _ fits hs run => Serves.run fits hs run)
      (fun a _ _ hs called => Option.some.inj called ▸ Serves.load hs a.1 a.2) reach
      ⟨by simp [created], by simp [created]⟩
    obtain ⟨content, same⟩ := served.state load mem c delivered _ success
    exact ⟨content, Option.some.inj same⟩
  · rintro ⟨content, rfl⟩
    let lib : Libp2p := ⟨fun _ => true, fun _ => true, fun _ => none, fun _ => none⟩
    let q : Request := ⟨[], file, 0, false, true⟩
    let c : ReadCall := ⟨.success (some (unixFSPayload content file)), false, true⟩
    have reach : Reaches (machine lib).step Free (created false)
        ⟨{ dht := false, loads := [{ request := q, delivered := [c] }] }, []⟩ :=
      reaches_of_exec (show exec (machine lib).step (created false)
        [.call (q, {}), .finish 0 (.content (some content)), .run 0 {}, .run 0 {}] = some _ from rfl)
    exact ⟨lib, false, _, { request := q, delivered := [c] }, c, reach, by simp, rfl, by simp, rfl⟩

end IPFSDevice

end AsyncIOManager
