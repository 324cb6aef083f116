import AsyncIOManager.Balance
import AsyncIOManager.URLStringUtil

namespace AsyncIOManager

open Reactor Text

structure WSDevice where
  wsHost : Str
  wsPath : Str
  wsPort : Str
  parse : Bool
  save : Bool
deriving DecidableEq, Repr

namespace WSDevice

/-- The handlers of one download. `connect` holds how many endpoints are tried,
`completion` is a posted `handle_read` that reports a failure. -/
inductive Handler
  | connect (self : WSDevice) (endpoints : Nat)
  | handshake (self : WSDevice)
  | wsHandshake (self : WSDevice)
  | write (self : WSDevice) (request : Str)
  | read (self : WSDevice)
  | completion (e : ErrorCode)
deriving DecidableEq, Repr

inductive Ec
  | success | error
deriving DecidableEq, Repr

/-- `delivered` lists the invocations of `handle_read`. -/
structure Progress where
  delivered : List ReadCall := []
deriving DecidableEq, Repr

abbrev Download := Loop Progress Handler Ec

def idle : Download := ⟨{}, []⟩

def handleRead (c : ReadCall) (s : Download) : Download :=
  { s with state := { s.state with delivered := s.state.delivered ++ [c] } }

def startWSGet (self : WSDevice) (s : Download) : Download :=
  s.start (.wsHandshake self)

def connectHandler (self : WSDevice) (connectError : Ec) (s : Download) : Download :=
  match connectError with
  | .success => s.start (.handshake self)
  | .error => handleRead (.failure (.wsDevice .connectError)) s

def handshakeHandler (self : WSDevice) (handshakeError : Ec) (s : Download) : Download :=
  match handshakeError with
  | .success => startWSGet self s
  | .error => handleRead (.failure (.wsDevice .handshakeError)) s

def wsHandshakeHandler (self : WSDevice) (handshakeError : Ec) (s : Download) : Download :=
  match handshakeError with
  | .success => s.start (.write self "GET_FILE".toList)
  | .error => handleRead (.failure (.wsDevice .wsHandshakeError)) s

/-- A failed write is only logged. -/
def writeHandler (self : WSDevice) (writeError : Ec) (s : Download) : Download :=
  match writeError with
  | .success => s.start (.read self)
  | .error => s

/-- `buffer` is what has been read; it ends five bytes after the data. -/
def readHandler (self : WSDevice) (readError : Ec) (buffer : Str) (s : Download) : Download :=
  match readError with
  | .success =>
    handleRead ⟨.success (some ⟨[filename self.wsPath], [buffer.take (buffer.length - 5)]⟩),
      self.parse, self.save⟩ s
  | .error => handleRead (.failure (.wsDevice .noEof)) s

def Handler.run (h : Handler) (e : Ec) (buffer : Str) (s : Download) : Download :=
  match h with
  | connect self _ => connectHandler self e s
  | handshake self => handshakeHandler self e s
  | wsHandshake self => wsHandshakeHandler self e s
  | write self _ => writeHandler self e s
  | read self => readHandler self e buffer s
  | completion err => handleRead (.failure err) s

/-- Connecting to no endpoint at all fails. -/
def Handler.completes (h : Handler) (e : Ec) : Bool :=
  match h with
  | connect _ endpoints => endpoints ≠ 0 || e = .error
  | completion _ => false
  | _ => true

def machine : Machine Progress Handler Ec Str Empty where
  completes := Handler.completes
  run h e buffer s := some (h.run e buffer s)
  call a _ := a.elim

inductive Resolve
  | resolved (endpoints : Nat) | systemError | stdException | unknownException
deriving DecidableEq, Repr

/-- After an exception the download goes on with no endpoint. -/
def startWSDownload (self : WSDevice) (resolve : Resolve) : Download :=
  match resolve with
  | .resolved endpoints => idle.start (.connect self endpoints)
  | .systemError | .stdException | .unknownException =>
    (idle.post (.completion (.wsDevice .couldNotResolve)) .success).start (.connect self 0)

end WSDevice

def WSLoader.loadASync (filename : Str) (parse save : Bool) (resolve : WSDevice.Resolve) :
    WSDevice.Download :=
  let (parsed, o) := parseHTTPUrl filename
  if parsed then WSDevice.startWSDownload ⟨o.host, o.path, o.port, parse, save⟩ resolve
  else WSDevice.idle.post (.completion (.wsLoader .invalidUrl)) .success

end AsyncIOManager
