import AsyncIOManager.MNNSaver

namespace AsyncIOManager

open Reactor

namespace MNNLoader

/-- The read of an open file, or a posted `handle_read` that reports a failure. -/
inductive Handler
  | read (filename : Str) (parse save : Bool)
  | completion (e : ErrorCode)
deriving DecidableEq, Repr

inductive Ec
  | eof | other
deriving DecidableEq, Repr

/-- `delivered` lists the invocations of `handle_read`. -/
structure Progress where
  delivered : List ReadCall := []
deriving DecidableEq, Repr

abbrev Reading := Loop Progress Handler Ec

def handleRead (c : ReadCall) (s : Reading) : Reading :=
  s.modify fun p => { p with delivered := p.delivered ++ [c] }

/-- `buffer` is what has been read when the end of the file is met. -/
def readHandler (filename : Str) (parse save : Bool) (error : Ec) (buffer : Str) (s : Reading) : Reading :=
  match error with
  | .eof =>
    handleRead ⟨.success (some ⟨[AsyncIOManager.filename filename], [buffer]⟩), parse, save⟩ s
  | .other => handleRead (.failure (.mnnLoader .readError)) s

def Handler.run (h : Handler) (e : Ec) (buffer : Str) (s : Reading) : Reading :=
  match h with
  | read filename parse save => readHandler filename parse save e buffer s
  | completion err => handleRead (.failure err) s

/-- Only of a regular file the end can be met. -/
def Handler.completes (h : Handler) (e : Ec) : Bool :=
  match h with
  | read filename _ _ => e = .other || MNNSaver.namesFile filename
  | completion _ => false

def machine : Machine Progress Handler Ec Str Empty where
  completes := Handler.completes
  run h e buffer s := some (h.run e buffer s)
  call a _ := a.elim

/-- The state in which a load starts; the file is opened first. -/
def loadASync (filename : Str) (parse save opened : Bool) : Reading :=
  let idle : Reading := ⟨{}, []⟩
  if opened then idle.start (.read filename parse save)
  else idle.post (.completion (.mnnLoader .fileOpenFail)) .eof

end MNNLoader

end AsyncIOManager
