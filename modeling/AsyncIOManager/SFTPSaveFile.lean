import AsyncIOManager.SFTPRelease

namespace AsyncIOManager

open Reactor Resources

namespace SFTPSaver

/-- What `SaveFile` meets outside; `sftpWrite` lists what its writes return. -/
structure Remote where
  init : Int := 0
  resolveThrows : Bool := false
  connectThrows : Bool := false
  handshake : Int := 0
  userauth : Int := 0
  sftpInit : Ptr := 1
  sftpOpen : Ptr := 1
  sftpWrite : List Int := []
deriving DecidableEq, Repr

inductive SaveFileException
  | rangeError (what : Str)
  | runtimeError (what : Str)
  | systemError
deriving DecidableEq, Repr

/-- What one call of `SaveFile` has done. `inits` are the results of `libssh2_init`. -/
structure SaveFileRun where
  inits : List Int := []
  resolves : List (Str × Str) := []
  calls : List Ssh2Call := []
  thrown : Option SaveFileException := none
deriving DecidableEq, Repr

namespace SaveFileRun

def call (calls : List Ssh2Call) (r : SaveFileRun) : SaveFileRun := { r with calls := r.calls ++ calls }

def throw (e : SaveFileException) (r : SaveFileRun) : SaveFileRun := { r with thrown := some e }

@[simp] theorem throw_inits (e : SaveFileException) (r : SaveFileRun) : (r.throw e).inits = r.inits := rfl
@[simp] theorem throw_calls (e : SaveFileException) (r : SaveFileRun) : (r.throw e).calls = r.calls := rfl

end SaveFileRun

def saveFileAuth (o : SFTPUrl) (rc : Int) : Ssh2Call :=
  if o.privatekeyFile ≠ [] then .userauthPublickey o.user o.privatekeyFile o.privatekeyPass rc
  else if o.publickeyFile ≠ [] then .userauthPublickey o.user o.publickeyFile o.privatekeyPass rc
  else .userauthPassword o.user o.pass rc

/-- The calls of the write loop and whether it has written everything; none as long as
it waits for a write. -/
def writeLoop (sftpHandle : Ptr) (writeSize : Nat) : Nat → List Int → Option (List Ssh2Call × Bool)
  | totalWritten, [] => if totalWritten < writeSize then none else some ([], true)
  | totalWritten, written :: results =>
    if totalWritten < writeSize then
      let c := .sftpWrite sftpHandle totalWritten (writeSize - totalWritten) written
      if written < 0 then some ([c], false)
      else (writeLoop sftpHandle writeSize (totalWritten + written.toNat) results).map
        fun (calls, complete) => (c :: calls, complete)
    else some ([], true)

/-- `SaveFile` from the creation of its session on. None as long as the write loop goes on. -/
def saveConnected (o : SFTPUrl) (fileContent : Str) (w : Remote) (r : SaveFileRun) :
    Option SaveFileRun :=
  let r := r.call [.sessionInit, .setBlocking true, .handshake w.handshake]
  if w.handshake ≠ 0 then
    some ((r.call [.sessionFree, .exit]).throw (.runtimeError "SFTP handshake failed".toList))
  else
    let r := r.call [saveFileAuth o w.userauth]
    if w.userauth ≠ 0 then
      some ((r.call [.sessionDisconnect, .sessionFree, .exit]).throw
        (.runtimeError "SFTP authentication failed".toList))
    else
      let sftp := w.sftpInit
      let r := r.call [.sftpInit sftp]
      if sftp = 0 then
        some ((r.call [.sessionDisconnect, .sessionFree, .exit]).throw
          (.runtimeError "SFTP init failed".toList))
      else
        let sftpHandle := w.sftpOpen
        let r := r.call [.sftpOpen sftp (cStr ('.' :: o.path)) sftpHandle]
        if sftpHandle = 0 then
          some ((r.call [.sftpShutdown sftp, .sessionDisconnect, .sessionFree, .exit]).throw
            (.runtimeError ("SFTP file open for write failed: ".toList ++ o.path)))
        else
          (writeLoop sftpHandle fileContent.length 0 w.sftpWrite).map fun (writes, complete) =>
            let r := (r.call writes).call [.sftpCloseHandle sftpHandle, .sftpShutdown sftp,
              .sessionDisconnect, .sessionFree, .exit]
            if complete then r else r.throw (.runtimeError "SFTP write failed".toList)

def saveFile (filename : Str) (data : Option Str) (w : Remote) : Option SaveFileRun :=
  match data with
  | none => some (SaveFileRun.throw (.rangeError "Cannot save with null data".toList) {})
  | some fileContent =>
    let o := (parseSFTPUrl filename).2
    let r : SaveFileRun := { inits := [w.init] }
    if w.init ≠ 0 then some (r.throw (.runtimeError "libssh2_init failed".toList))
    else
      let r := { r with resolves := [splitHostPort o.host] }
      if w.resolveThrows then some (r.throw .systemError)
      else if w.connectThrows then some (r.throw .systemError)
      else saveConnected o fileContent w r

/-- What `SaveFile` has obtained is given back: the session, the sftp and file handles,
and each initialisation of the library. -/
def SaveFileRun.Released (r : SaveFileRun) : Prop :=
  sessionLedger.Settled r.calls ∧ r.inits.count 0 = r.calls.count .exit

theorem writeLoop_calls {sftpHandle : Ptr} {writeSize totalWritten : Nat} {results : List Int}
    {calls : List Ssh2Call} {complete : Bool}
    (h : writeLoop sftpHandle writeSize totalWritten results = some (calls, complete)) :
    ∀ c ∈ calls, ∃ offset len rc, c = .sftpWrite sftpHandle offset len rc := by
  induction results generalizing totalWritten calls with
  | nil =>
    simp only [writeLoop] at h
    split at h
    next => cases h
    next =>
      cases Option.some.inj h
      simp
  | cons written results ih =>
    simp only [writeLoop] at h
    split at h
    next =>
      split at h
      next =>
        cases Option.some.inj h
        simp
      next =>
        obtain ⟨⟨more, done⟩, hm, he⟩ := Option.map_eq_some_iff.mp h
        cases he
        intro c hc
        rcases List.mem_cons.mp hc with rfl | hc
        · exact ⟨_, _, _, rfl⟩
        · exact ih hm c hc
    next =>
      cases Option.some.inj h
      simp

theorem saveFileAuth_neutral (o : SFTPUrl) (rc : Int) :
    sessionLedger.Neutral [saveFileAuth o rc] ∧ saveFileAuth o rc ≠ .exit := by
  unfold saveFileAuth
  split
  next => simp [Ledger.Neutral, sessionLedger, Ssh2Call.acquires, Ssh2Call.releases]
  next => split <;> simp [Ledger.Neutral, sessionLedger, Ssh2Call.acquires, Ssh2Call.releases]

theorem writeLoop_neutral {sftpHandle : Ptr} {writeSize totalWritten : Nat} {results : List Int}
    {calls : List Ssh2Call} {complete : Bool}
    (h : writeLoop sftpHandle writeSize totalWritten results = some (calls, complete)) :
    sessionLedger.Neutral calls ∧ .exit ∉ calls := by
  have writes := writeLoop_calls h
  refine ⟨fun c hc => ?_, fun exits => ?_⟩
  · obtain ⟨offset, len, rc, rfl⟩ := writes c hc
    exact ⟨rfl, rfl⟩
  · obtain ⟨offset, len, rc, is⟩ := writes _ exits
    cases is

/-- What is given back does not depend on the authentication, which obtains nothing. -/
theorem released_around {r : SaveFileRun} {auth : Ssh2Call} (first last : List Ssh2Call)
    (inits : r.inits = [0]) (calls : r.calls = first ++ ([auth] ++ last))
    (neutral : sessionLedger.Neutral [auth] ∧ auth ≠ .exit)
    (settled : sessionLedger.Settled (first ++ last)) (exits : (first ++ last).count .exit = 1) :
    r.Released := by
  refine ⟨?_, ?_⟩
  · rw [calls, Ledger.settled_insert neutral.1]
    exact settled
  · have once : r.calls.count .exit = (first ++ last).count .exit := by
      rw [calls]
      simp [List.count_append, neutral.2]
    rw [once, exits, inits]
    rfl

theorem settled_handles {w : Remote} (sftpSome : w.sftpInit ≠ 0) (handleSome : w.sftpOpen ≠ 0)
    (path : Str) {writes : List Ssh2Call} (neutral : sessionLedger.Neutral writes) :
    sessionLedger.Settled (([.sessionInit, .setBlocking true, .handshake w.handshake] : List Ssh2Call) ++
      (([.sftpInit w.sftpInit, .sftpOpen w.sftpInit path w.sftpOpen] : List Ssh2Call) ++ (writes ++
      ([.sftpCloseHandle w.sftpOpen, .sftpShutdown w.sftpInit, .sessionDisconnect, .sessionFree, .exit] :
        List Ssh2Call)))) := by
  rw [← List.append_assoc, Ledger.settled_insert neutral]
  intro r
  simp only [sessionLedger, List.cons_append, List.nil_append, Ledger.acquired_cons, Ledger.released_cons,
    Ssh2Call.acquires, Ssh2Call.releases, sftpSome, handleSome, if_false]
  cases r <;> simp

theorem saveConnected_released {o : SFTPUrl} {fileContent : Str} {w : Remote} {r t : SaveFileRun}
    (inits : r.inits = [0]) (calls : r.calls = []) (h : saveConnected o fileContent w r = some t) :
    t.Released := by
  have auth := saveFileAuth_neutral o w.userauth
  simp only [saveConnected, SaveFileRun.call, calls, List.nil_append, List.append_assoc] at h
  split at h
  next =>
    obtain rfl := Option.some.inj h
    refine ⟨?_, by rw [SaveFileRun.throw_inits, inits]; rfl⟩
    intro r
    simp [Ledger.acquired_cons, Ledger.released_cons, sessionLedger, Ssh2Call.acquires, Ssh2Call.releases]
  next =>
    split at h
    next =>
      obtain rfl := Option.some.inj h
      refine released_around _ _ inits rfl auth ?_ rfl
      intro r
      simp [Ledger.acquired_cons, Ledger.released_cons, sessionLedger, Ssh2Call.acquires, Ssh2Call.releases]
    next =>
      split at h
      next none =>
        obtain rfl := Option.some.inj h
        refine released_around _ _ inits rfl auth ?_ rfl
        intro r
        simp [Ledger.acquired_cons, Ledger.released_cons, sessionLedger, Ssh2Call.acquires,
          Ssh2Call.releases, none]
      next sftpSome =>
        split at h
        next none =>
          obtain rfl := Option.some.inj h
          refine released_around _ _ inits rfl auth ?_ rfl
          intro r
          simp [Ledger.acquired_cons, Ledger.released_cons, sessionLedger, Ssh2Call.acquires,
            Ssh2Call.releases, none, sftpSome]
          cases r <;> simp
        next handleSome =>
          obtain ⟨⟨writes, complete⟩, hw, he⟩ := Option.map_eq_some_iff.mp h
          obtain ⟨neutral, silent⟩ := writeLoop_neutral hw
          have settled := settled_handles sftpSome handleSome (cStr ('.' :: o.path)) neutral
          have exits := List.count_eq_zero.mpr silent
          cases complete with
          | true | false =>
            obtain rfl := he
            refine released_around _ _ inits (by simp) auth settled ?_
            simp [List.count_append, exits]

theorem saveFile_released_iff {filename : Str} {data : Option Str} {w : Remote} {r : SaveFileRun}
    (h : saveFile filename data w = some r) :
    r.Released ↔ ¬ (data ≠ none ∧ w.init = 0 ∧ (w.resolveThrows = true ∨ w.connectThrows = true)) := by
  cases data with
  | none =>
    cases Option.some.inj h
    simp [SaveFileRun.Released, Ledger.Settled]
  | some fileContent =>
    simp only [saveFile] at h
    split at h
    next failed =>
      cases Option.some.inj h
      simp [SaveFileRun.Released, Ledger.Settled, failed]
    next ok =>
      have init : w.init = 0 := not_not.mp ok
      split at h
      next threw =>
        cases Option.some.inj h
        simp [SaveFileRun.Released, init, threw]
      next resolved =>
        split at h
        next threw =>
          cases Option.some.inj h
          simp [SaveFileRun.Released, init, threw]
        next connected =>
          have fine : ¬ (some fileContent ≠ none ∧ w.init = 0 ∧
              (w.resolveThrows = true ∨ w.connectThrows = true)) := by
            simp [resolved, connected]
          exact iff_of_true (saveConnected_released (by rw [init]) rfl h) fine

/-- The file to save and an upload of it whose host does not resolve. -/
def oneFile : ResultType := .success (some ⟨["f".toList], ["data".toList]⟩)

def unresolved : Upload :=
  .created ⟨"h".toList, "/f".toList, "u".toList, "p".toList, [], [], [], "data".toList, false⟩ .systemError

def unresolvedSave : Saving :=
  settle 0 [unresolved] ⟨unresolved.done, [⟨.completion, some .success⟩]⟩ ⟨{ remainingWrites := 1 }, []⟩

end SFTPSaver

end AsyncIOManager
