import AsyncIOManager.Balance
import AsyncIOManager.Results

namespace AsyncIOManager

open Reactor

abbrev CID := Str
abbrev PeerId := Str
abbrev Multiaddress := Str

structure PeerInfo where
  id : PeerId
  addresses : List Multiaddress
deriving DecidableEq, Repr

/-- What the device uses of `libp2p`. `fromHash` tells whether the content address of a
CID is accepted as the hash of a peer, `toString` whether the CID can be written. -/
structure Libp2p where
  fromHash : CID → Bool
  toString : CID → Bool
  getPeerId : Multiaddress → Option Str
  fromBase58 : Str → Option PeerId

structure UnixFSFile where
  path : Str
  content : Str
deriving DecidableEq, Repr

structure UnixFSContent where
  singleFile : Bool
  files : List UnixFSFile
deriving DecidableEq, Repr

namespace IPFSDevice

/-- The arguments of a load. -/
structure Request where
  cid : CID
  filename : Str
  addressoffset : Nat
  parse : Bool
  save : Bool
deriving DecidableEq, Repr

/-- What the device waits for, with the load it belongs to. `handleRead` is a
posted invocation of the load's callback. -/
inductive Handler
  | findProviders (i : Nat) (q : Request)
  | retry (i : Nat) (q : Request)
  | requestContent (i : Nat) (filename : Str) (parse save : Bool)
  | handleRead (i : Nat) (c : ReadCall)
deriving DecidableEq, Repr

/-- How an operation ends; without a list or a content it ends with an error. -/
inductive Ec
  | providers (res : Option (List PeerInfo))
  | expired | aborted
  | content (res : Option UnixFSContent)
  | posted
deriving DecidableEq, Repr

/-- What else a handler meets: whether a search can be started, and whether a
content is converted without an exception. -/
structure Turn where
  started : Bool := true
  converted : Bool := true
deriving DecidableEq, Repr

/-- A call of `StartFindingPeers` from outside; `delivered` lists the invocations of its
callback. -/
structure Load where
  request : Request
  delivered : List ReadCall := []
deriving DecidableEq, Repr

/-- `providers` lists what has been added to bitswap. -/
structure Device where
  dht : Bool
  loads : List Load := []
  providers : List (CID × List PeerInfo) := []
deriving DecidableEq, Repr

abbrev Serving := Loop Device Handler Ec

/-- `.value()` throws on an error, and what follows is not run. -/
def value (ok : Bool) (next : Serving → Serving) (s : Serving) : Serving := if ok then next s else s

def cannotDecode : ErrorCode := .ipfsDevice .cannotDecode

def postFailure (i : Nat) (s : Serving) : Serving :=
  s.post (.handleRead i (.failure cannotDecode)) .posted

/-- The providers for addresses that name their peer. -/
def peerInfos (lib : Libp2p) (addresses : List Multiaddress) : List PeerInfo :=
  addresses.filterMap fun address => do
    let bytes ← lib.getPeerId address
    let id ← lib.fromBase58 bytes
    pure ⟨id, [address]⟩

def addAddresses (lib : Libp2p) (cid : CID) (addresses : List Multiaddress) (next : Serving → Serving)
    (s : Serving) : Serving :=
  value (lib.toString cid) next
    (s.modify fun d => { d with providers := d.providers ++ [(cid, peerInfos lib addresses)] })

def requestBlockMain (lib : Libp2p) (i : Nat) (q : Request) (s : Serving) : Serving :=
  value (lib.toString q.cid) (fun s => s.start (.requestContent i q.filename q.parse q.save)) s

def startFindingPeers (lib : Libp2p) (i : Nat) (q : Request) (turn : Turn) (s : Serving) : Serving :=
  if s.state.dht then
    value (lib.fromHash q.cid)
      (fun s => if turn.started then s.start (.findProviders i q) else postFailure i s) s
  else requestBlockMain lib i q s

def Handler.isRetry : Handler → Bool
  | retry _ _ => true
  | _ => false

/-- All loads share one timer: setting its expiry aborts the waits that are armed. -/
def startFindingPeersWithRetry (i : Nat) (q : Request) (s : Serving) : Serving :=
  (s.cancel Handler.isRetry .aborted).start (.retry i q)

def providersHandler (lib : Libp2p) (i : Nat) (q : Request) (res : Option (List PeerInfo)) (s : Serving) :
    Serving :=
  match res with
  | none => postFailure i s
  | some [] => startFindingPeersWithRetry i q s
  | some (p :: ps) =>
    addAddresses lib q.cid ((p :: ps).flatMap PeerInfo.addresses)
      (requestBlockMain lib i { q with addressoffset := 0 }) s

def unixFSPayload (unixfsContent : UnixFSContent) (filename : Str) : Payload :=
  if unixfsContent.singleFile then
    match unixfsContent.files with
    | [] => ⟨[], []⟩
    | file :: _ => ⟨[if filename = [] then file.path else filename], [file.content]⟩
  else ⟨unixfsContent.files.map UnixFSFile.path, unixfsContent.files.map UnixFSFile.content⟩

def convertUnixFSContentToResult (i : Nat) (unixfsContent : UnixFSContent) (filename : Str)
    (parse save : Bool) (turn : Turn) (s : Serving) : Serving :=
  if turn.converted then
    s.post (.handleRead i ⟨.success (some (unixFSPayload unixfsContent filename)), parse, save⟩) .posted
  else s.post (.handleRead i ⟨.failure cannotDecode, parse, save⟩) .posted

def contentHandler (i : Nat) (filename : Str) (parse save : Bool) (contentResult : Option UnixFSContent)
    (turn : Turn) (s : Serving) : Serving :=
  match contentResult with
  | none => postFailure i s
  | some unixfsContent => convertUnixFSContentToResult i unixfsContent filename parse save turn s

/-- A wait that was aborted only logs. -/
def retryHandler (lib : Libp2p) (i : Nat) (q : Request) (aborted : Bool) (turn : Turn)
    (s : Serving) : Serving :=
  if aborted then s else startFindingPeers lib i q turn s

def handleRead (i : Nat) (c : ReadCall) (s : Serving) : Serving :=
  s.modify fun d => { d with
    loads := d.loads.modify i fun load => { load with delivered := load.delivered ++ [c] } }

/-- The requests stay as they are when a load is reported. -/
theorem handleRead_requests (i : Nat) (c : ReadCall) (s : Serving) (j : Nat) :
    (handleRead i c s).state.loads[j]?.map Load.request = s.state.loads[j]?.map Load.request := by
  simp only [handleRead, Loop.modify_state, List.getElem?_modify]
  cases s.state.loads[j]? with
  | none => rfl
  | some load => by_cases same : i = j <;> simp [same]

/-- What all reports have in common is kept when one more has it. -/
theorem handleRead_each {D : Request → ReadCall → Prop} {s : Serving} {i : Nat} {c : ReadCall}
    (old : ∀ load ∈ s.state.loads, ∀ d ∈ load.delivered, D load.request d)
    (new : ∀ load, s.state.loads[i]? = some load → D load.request c) :
    ∀ load ∈ (handleRead i c s).state.loads, ∀ d ∈ load.delivered, D load.request d := by
  intro load mem d hd
  obtain ⟨j, hj⟩ := List.mem_iff_getElem?.mp mem
  simp only [handleRead, Loop.modify_state, List.getElem?_modify] at hj
  cases known : s.state.loads[j]? with
  | none => simp [known] at hj
  | some before =>
    have earlier := old before (List.mem_of_getElem? known)
    by_cases same : i = j
    · subst same
      simp only [known, if_true] at hj
      obtain rfl := Option.some.inj hj
      rcases List.mem_append.mp hd with first | last
      · exact earlier d first
      · rw [List.mem_singleton.mp last]
        exact new before known
    · simp only [known, same, if_false] at hj
      obtain rfl := Option.some.inj hj
      exact earlier d hd

def Handler.run (lib : Libp2p) (h : Handler) (e : Ec) (turn : Turn) (s : Serving) : Option Serving :=
  match h, e with
  | findProviders i q, .providers res => some (providersHandler lib i q res s)
  | retry i q, .expired => some (retryHandler lib i q false turn s)
  | retry i q, .aborted => some (retryHandler lib i q true turn s)
  | requestContent i filename parse save, .content res =>
    some (contentHandler i filename parse save res turn s)
  | handleRead i c, .posted => some (IPFSDevice.handleRead i c s)
  | _, _ => none

/-- The posted handler with which a load comes to the device. -/
def load (lib : Libp2p) (q : Request) (turn : Turn) (s : Serving) : Serving :=
  startFindingPeers lib s.state.loads.length q turn
    (s.modify fun d => { d with loads := d.loads ++ [{ request := q }] })

def Handler.completes : Handler → Ec → Bool
  | findProviders _ _, .providers _ => true
  | retry _ _, .expired => true
  | requestContent _ _ _ _, .content _ => true
  | _, _ => false

def machine (lib : Libp2p) : Machine Device Handler Ec Turn (Request × Turn) where
  completes := Handler.completes
  run := Handler.run lib
  call a s := some (load lib a.1 a.2 s)

/-- The device that `getInstance` has created. -/
def created (dht : Bool) : Serving := ⟨{ dht }, []⟩

end IPFSDevice

end AsyncIOManager
