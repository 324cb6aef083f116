import AsyncIOManager.Held
import AsyncIOManager.Balance
import AsyncIOManager.URLStringUtil

namespace AsyncIOManager

open Reactor

namespace FileManager

/-- The arguments of `LoadASync`; `finalcall` tells whether the callback is set. -/
structure Load where
  url : Str
  parse : Bool
  save : Bool
  ioc : Nat
  finalcall : Bool
  savetype : Str
deriving DecidableEq, Repr

/-- The arguments of `SaveASync`. -/
structure Save where
  url : Str
  data : ResultType
  ioc : Nat
  finalcall : Bool
deriving DecidableEq, Repr

/-- What has happened to an accepted operation: how often its decrement ran, the
invocations of its `finalcall`, whether its caller got an exception, whether
`end()` of a registry was dereferenced for it, and whether its nested saver threw. -/
structure Op where
  ioc : Nat
  finalcall : Bool
  decrements : Nat := 0
  finalcalls : List ResultType := []
  threw : Bool := false
  endDereferenced : Bool := false
  saverThrew : Bool := false
deriving DecidableEq, Repr

def Op.decrement (o : Op) : Op := { o with decrements := o.decrements + 1 }
def Op.tell (buffers : ResultType) (o : Op) : Op := { o with finalcalls := o.finalcalls ++ [buffers] }
def Op.throw (o : Op) : Op := { o with threw := true }
def Op.dereferenceEnd (o : Op) : Op := { o with endDereferenced := true }
def Op.failSave (o : Op) : Op := { o with saverThrew := true }

/-- The keys of the registries and the operation counter. `ops` lists the accepted
operations, `stopped` the calls of `io_context::stop`, and `neverHappened` counts
the decrements that found no operation. -/
structure Manager where
  loaders : List Str := []
  parsers : List Str := []
  savers : List Str := []
  outstandingOperations : Int := 0
  ops : List Op := []
  stopped : List Nat := []
  neverHappened : Nat := 0
deriving DecidableEq, Repr

def registerLoader (pre : Str) (m : Manager) : Manager :=
  { m with loaders := m.loaders.insert pre }

def registerParser (suffix : Str) (m : Manager) : Manager :=
  { m with parsers := m.parsers.insert suffix }

def registerSaver (pre : Str) (m : Manager) : Manager :=
  { m with savers := m.savers.insert pre }

/-- The singletons register themselves; no parser is among them. -/
def initializeSingletons (m : Manager) : Manager :=
  let m := registerLoader "file".toList m
  let m := registerLoader "https".toList m
  let m := registerLoader "ipfs".toList m
  let m := registerSaver "ipfs".toList m
  let m := registerSaver "mnn".toList (registerSaver "file".toList m)
  registerSaver "sftp".toList m

def Manager.note (op : Nat) (f : Op → Op) (m : Manager) : Manager :=
  { m with ops := m.ops.modify op f }

/-- `op` is the operation that is accepted. -/
def incrementOutstandingOperations (op : Op) (m : Manager) : Manager :=
  { m with outstandingOperations := m.outstandingOperations + 1, ops := m.ops ++ [op] }

/-- `op` is the operation whose decrement runs. -/
def decrementOutstandingOperations (op ioc : Nat) (m : Manager) : Manager :=
  let m := m.note op Op.decrement
  if m.outstandingOperations ≤ 0 then
    { m with neverHappened := m.neverHappened + 1, stopped := m.stopped ++ [ioc] }
  else
    let m := { m with outstandingOperations := m.outstandingOperations - 1 }
    if m.outstandingOperations = 0 then { m with stopped := m.stopped ++ [ioc] } else m

section Decrement

variable (op ioc : Nat) (m : Manager)

@[simp] theorem decrementOutstandingOperations_ops :
    (decrementOutstandingOperations op ioc m).ops = m.ops.modify op Op.decrement := by
  simp only [decrementOutstandingOperations]
  split
  next => rfl
  next => split <;> rfl

@[simp] theorem decrementOutstandingOperations_parsers :
    (decrementOutstandingOperations op ioc m).parsers = m.parsers := by
  simp only [decrementOutstandingOperations]
  split
  next => rfl
  next => split <;> rfl

@[simp] theorem decrementOutstandingOperations_savers :
    (decrementOutstandingOperations op ioc m).savers = m.savers := by
  simp only [decrementOutstandingOperations]
  split
  next => rfl
  next => split <;> rfl

end Decrement

/-- The callbacks that loaders and savers hold, with what the manager has given them. -/
inductive Handler
  | handleRead (op : Nat) (call : Load) (filePath suffix : Str)
  | nestedWrite (op ioc : Nat) (savetype suffix : Str) (buffers : ResultType)
  | handleWrite (op : Nat) (call : Save) (filePath suffix : Str)
deriving DecidableEq, Repr

def Handler.op : Handler → Nat
  | handleRead op _ _ _ => op
  | nestedWrite op _ _ _ _ => op
  | handleWrite op _ _ _ => op

/-- How a loader or a saver invokes its callback. -/
inductive Outcome
  | read (c : ReadCall)
  | written
deriving DecidableEq, Repr

abbrev Session := Loop Manager Handler Outcome

/-- A call and whether the loader or saver it reaches throws. -/
inductive Call
  | load (c : Load) (loaderThrows : Bool)
  | save (c : Save) (saverThrows : Bool)
deriving DecidableEq, Repr

inductive Exit
  | returned | rangeError | handlerThrew
deriving DecidableEq, Repr

def loadASync (c : Load) (loaderThrows : Bool) (s : Session) : Session × Exit :=
  let o := (getURLComponents c.url).2
  if o.pre ∈ s.state.loaders then
    let op := s.state.ops.length
    let s := s.modify (incrementOutstandingOperations { ioc := c.ioc, finalcall := c.finalcall })
    if loaderThrows then (s.modify (·.note op Op.throw), .handlerThrew)
    else (s.start (.handleRead op c o.base o.extension), .returned)
  else (s, .rangeError)

def saveASync (c : Save) (saverThrows : Bool) (s : Session) : Session × Exit :=
  let o := (getURLComponents c.url).2
  if o.pre ∈ s.state.savers then
    let op := s.state.ops.length
    let s := s.modify (incrementOutstandingOperations { ioc := c.ioc, finalcall := c.finalcall })
    if saverThrows then
      ((s.modify (decrementOutstandingOperations op c.ioc)).modify (·.note op Op.throw), .handlerThrew)
    else (s.start (.handleWrite op c o.base o.extension), .returned)
  else (s, .rangeError)

def Call.perform (c : Call) (s : Session) : Session × Exit :=
  match c with
  | load c loaderThrows => loadASync c loaderThrows s
  | save c saverThrows => saveASync c saverThrows s

def performAll (calls : List Call) (s : Session) : Session :=
  calls.foldl (fun s c => (c.perform s).1) s

/-- What a handler meets outside: whether the nested saver throws, and the calls
that the `finalcall` makes. -/
structure Env where
  saverThrows : Bool := false
  calls : List Call := []
deriving DecidableEq, Repr

/-- An empty `finalcall` ends `handle_read` with an exception and is skipped by
`handle_write`; nothing follows it in either. -/
def invokeFinalcall (op : Nat) (finalcall : Bool) (buffers : ResultType) (env : Env)
    (s : Session) : Session :=
  if finalcall then performAll env.calls (s.modify (·.note op (Op.tell buffers))) else s

/-- The parser that is looked up is not used, so nothing stops at an `end()` here. -/
def findParser (op : Nat) (parse : Bool) (s : Session) : Session :=
  if parse ∧ "mnn".toList ∉ s.state.parsers then s.modify (·.note op Op.dereferenceEnd) else s

section Parser

variable (op : Nat) (parse : Bool) (s : Session)

@[simp] theorem findParser_pool : (findParser op parse s).pool = s.pool := by
  unfold findParser
  split <;> rfl

@[simp] theorem findParser_parsers : (findParser op parse s).state.parsers = s.state.parsers := by
  unfold findParser
  split <;> rfl

@[simp] theorem findParser_savers : (findParser op parse s).state.savers = s.state.savers := by
  unfold findParser
  split <;> rfl

end Parser

/-- The saver is called, so the handler ends at an `end()`; an exception of the
nested saver leaves it too. -/
def handleRead (op : Nat) (call : Load) (suffix : Str) (c : ReadCall) (env : Env)
    (s : Session) : Session :=
  match c.buffers with
  | .success _ =>
    let s := findParser op c.parse s
    if c.save then
      if call.savetype ∉ s.state.savers then s.modify (·.note op Op.dereferenceEnd)
      else if env.saverThrows then s.modify (·.note op Op.failSave)
      else invokeFinalcall op call.finalcall c.buffers env
        (s.start (.nestedWrite op call.ioc call.savetype suffix c.buffers))
    else invokeFinalcall op call.finalcall c.buffers env
      (s.modify (decrementOutstandingOperations op call.ioc))
  | .failure _ => invokeFinalcall op call.finalcall c.buffers env
      (s.modify (decrementOutstandingOperations op call.ioc))

def nestedWrite (op ioc : Nat) (s : Session) : Session :=
  s.modify (decrementOutstandingOperations op ioc)

def handleWrite (op : Nat) (call : Save) (env : Env) (s : Session) : Session :=
  invokeFinalcall op call.finalcall call.data env (s.modify (decrementOutstandingOperations op call.ioc))

def Handler.run (h : Handler) (e : Outcome) (env : Env) (s : Session) : Option Session :=
  match h, e with
  | handleRead op call _ suffix, .read c => some (FileManager.handleRead op call suffix c env s)
  | nestedWrite op ioc _ _ _, .written => some (FileManager.nestedWrite op ioc s)
  | handleWrite op call _ _, .written => some (FileManager.handleWrite op call env s)
  | _, _ => none

def Handler.completes : Handler → Outcome → Bool
  | handleRead .., .read _ => true
  | nestedWrite .., .written => true
  | handleWrite .., .written => true
  | _, _ => false

def machine : Machine Manager Handler Outcome Env Call where
  completes := Handler.completes
  run := Handler.run
  call c s := some (c.perform s).1

/-- Any contents of the registries, and no operation yet. -/
def started (loaders parsers savers : List Str) : Session := ⟨{ loaders, parsers, savers }, []⟩

end FileManager

end AsyncIOManager
