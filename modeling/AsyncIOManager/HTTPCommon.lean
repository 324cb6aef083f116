import AsyncIOManager.Balance
import AsyncIOManager.URLStringUtil

namespace AsyncIOManager

open Reactor Text

structure HTTPDevice where
  httpHost : Str
  httpPath : Str
  httpPort : Str
  parse : Bool
  save : Bool
deriving DecidableEq, Repr

namespace HTTPDevice

/-- The phases of a download that have a deadline of their own. -/
inductive Phase
  | connect | handshake | get
deriving DecidableEq, Repr

/-- The handlers of one download, with what their lambdas capture.
`completion` is a posted `handle_read` that reports a failure. -/
inductive Handler
  | connect (self : HTTPDevice)
  | handshake (self : HTTPDevice)
  | write (self : HTTPDevice) (sent : Option Str)
  | read (self : HTTPDevice)
  | deadline (phase : Phase)
  | completion (e : ErrorCode)
deriving DecidableEq, Repr

/-- `boost::system::error_code`; only a cancelled operation ends with `operationAborted`. -/
inductive Ec
  | success | eof | operationAborted | other
deriving DecidableEq, Repr

/-- `expired` lists the phases whose flag is set, `delivered` the invocations of `handle_read`,
and `aborted` which deadline has aborted which operation. -/
structure Progress where
  expired : List Phase := []
  aborted : List (Phase × Handler) := []
  delivered : List ReadCall := []
deriving DecidableEq, Repr

abbrev Download := Loop Progress Handler Ec

/-- The phase of an operation on the socket. -/
def Handler.phase : Handler → Option Phase
  | connect _ => some .connect
  | handshake _ => some .handshake
  | write _ _ => some .get
  | read _ => some .get
  | deadline _ => none
  | completion _ => none

def Handler.onSocket (h : Handler) : Bool := h.phase.isSome

def Handler.isCompletion : Handler → Bool
  | completion _ => true
  | _ => false

def handleRead (c : ReadCall) (s : Download) : Download :=
  { s with state := { s.state with delivered := s.state.delivered ++ [c] } }

/-- The new deadline's flag is false: no phase is armed twice. -/
def armDeadline (phase : Phase) (s : Download) : Download :=
  s.start (.deadline phase)

def cancelDeadline (phase : Phase) (s : Download) : Download :=
  s.cancel (fun h => h = .deadline phase) .operationAborted

def inProgress (x : Entry Handler Ec) : Bool := x.handler.onSocket && x.outcome.isNone

/-- The expiry handler of the deadline of `phase`. -/
def deadlineHandler (phase : Phase) (error : Ec) (s : Download) : Download :=
  if error = .success then
    let hit := (s.pool.filter inProgress).map fun x => (phase, x.handler)
    let s := s.cancel Handler.onSocket .operationAborted
    { s with
      state := { s.state with
        expired := phase :: s.state.expired
        aborted := s.state.aborted ++ hit } }
  else s

/-- The error that is delivered when an operation of `phase` has failed. -/
def failed (phase : Phase) (otherwise : Error) (s : Download) : ReadCall :=
  .failure (.httpDevice (if phase ∈ s.state.expired then .timeout else otherwise))

def getRequest (d : HTTPDevice) : Str :=
  "GET ".toList ++ d.httpPath ++ " HTTP/1.1\r\nHost: ".toList ++ d.httpHost ++
    "\r\nUser-Agent: GeniusAI/1.0 (SGNS AsyncIO Manager)\r\nConnection: close\r\n\r\n".toList

/-- What one record of the connection holds. -/
def tlsRecord : Nat := 16384

/-- What is sent of `get_request`, which is gone when `StartHTTPGet` returns: only the first
record has been made then, and what would follow is read from memory that has been given back. -/
def sent (getRequest : Str) : Option Str := if getRequest.length ≤ tlsRecord then some getRequest else none

def startHTTPGet (self : HTTPDevice) (s : Download) : Download :=
  (armDeadline .get s).start (.write self (sent self.getRequest))

def connectHandler (self : HTTPDevice) (connectError : Ec) (s : Download) : Download :=
  let s := cancelDeadline .connect s
  if connectError = .success then (armDeadline .handshake s).start (.handshake self)
  else handleRead (failed .connect .connectError s) s

def handshakeHandler (self : HTTPDevice) (handshakeError : Ec) (s : Download) : Download :=
  let s := cancelDeadline .handshake s
  if handshakeError = .success then startHTTPGet self s
  else handleRead (failed .handshake .handshakeError s) s

def writeHandler (self : HTTPDevice) (writeError : Ec) (s : Download) : Download :=
  if writeError = .success then s.start (.read self)
  else
    let s := cancelDeadline .get s
    handleRead (failed .get .reqFailed s) s

/-- `headerbuff` is everything the server has sent. -/
def readHandler (self : HTTPDevice) (readError : Ec) (headerbuff : Str) (s : Download) : Download :=
  let s := cancelDeadline .get s
  if readError ≠ .success ∧ readError ≠ .eof then handleRead (failed .get .conInterrupt s) s
  else
    match find "\r\n\r\n".toList headerbuff with
    | some headerEnd =>
      handleRead ⟨.success (some ⟨[filename self.httpPath], [headerbuff.drop (headerEnd + 4)]⟩),
        self.parse, self.save⟩ s
    | none => handleRead (.failure (.httpDevice .noHeader)) s

def Handler.run (h : Handler) (e : Ec) (headerbuff : Str) (s : Download) : Download :=
  match h with
  | connect self => connectHandler self e s
  | handshake self => handshakeHandler self e s
  | write self _ => writeHandler self e s
  | read self => readHandler self e headerbuff s
  | deadline phase => deadlineHandler phase e s
  | completion err => handleRead (.failure err) s

/-- A deadline finishes by expiring; an operation on the socket finishes by itself
with anything but `operationAborted`. -/
def Handler.completes (h : Handler) (e : Ec) : Bool :=
  match h with
  | deadline _ => e = .success
  | completion _ => false
  | _ => e ≠ .operationAborted

def machine : Machine Progress Handler Ec Str Empty where
  completes := Handler.completes
  run h e headerbuff s := some (h.run e headerbuff s)
  call a _ := a.elim

inductive Resolve
  | resolved | systemError | stdException | unknownException
deriving DecidableEq, Repr

def idle : Download := ⟨{}, []⟩

/-- `sni` is the reason why the server name could not be set, if so. -/
def startHTTPDownload (self : HTTPDevice) (resolve : Resolve) (sni : Option Str) :
    Except Str Download :=
  match resolve with
  | .systemError | .stdException | .unknownException =>
    .ok (idle.post (.completion (.httpDevice .couldNotResolve)) .success)
  | .resolved =>
    match sni with
    | some reason => .error ("Failed to set SNI: ".toList ++ reason)
    | none => .ok ((armDeadline .connect idle).start (.connect self))

end HTTPDevice

def HTTPLoader.loadASync (filename : Str) (parse save : Bool) (resolve : HTTPDevice.Resolve)
    (sni : Option Str) : Except Str HTTPDevice.Download :=
  let (parsed, o) := parseHTTPUrl filename
  if parsed then
    HTTPDevice.startHTTPDownload ⟨o.host, o.path, o.port, parse, save⟩ resolve sni
  else .ok (HTTPDevice.idle.post (.completion (.httpLoader .invalidUrl)) .success)

end AsyncIOManager
