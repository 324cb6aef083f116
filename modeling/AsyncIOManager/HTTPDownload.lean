import AsyncIOManager.Carried
import AsyncIOManager.HTTPCommon

namespace AsyncIOManager

open Reactor Text

/-- The device that a load of the URL makes, without its scheme. -/
def HTTPLoader.device (filename : Str) (parse save : Bool) : HTTPDevice :=
  let o := (parseHTTPUrl filename).2
  ⟨o.host, o.path, o.port, parse, save⟩

namespace HTTPDevice

/-- An entry that still has to deliver: a step of the download or a posted failure. -/
def owes (x : Entry Handler Ec) : Bool := x.handler.onSocket || x.handler.isCompletion

def settled (p : Progress) : Nat := p.delivered.length

@[simp] theorem handleRead_pool (c : ReadCall) (s : Download) : (handleRead c s).pool = s.pool := rfl

@[simp] theorem handleRead_delivered (c : ReadCall) (s : Download) :
    (handleRead c s).state.delivered = s.state.delivered ++ [c] := rfl

theorem owes_congr (h : Handler) (a b : Option Ec) : owes ⟨h, a⟩ = owes ⟨h, b⟩ := rfl

theorem balance_handleRead (c : ReadCall) (s : Download) :
    (handleRead c s).balance owes settled = s.balance owes settled + 1 := by
  simp only [Loop.balance, handleRead_pool, settled, handleRead_delivered, List.length_append,
    List.length_singleton]
  omega

@[simp] theorem balance_armDeadline (phase : Phase) (s : Download) :
    (armDeadline phase s).balance owes settled = s.balance owes settled :=
  Loop.balance_start owes settled s (.deadline phase)

@[simp] theorem balance_cancelDeadline (phase : Phase) (s : Download) :
    (cancelDeadline phase s).balance owes settled = s.balance owes settled :=
  Loop.balance_cancel (fun h _ => owes_congr h _ _) settled s

theorem balance_start_onSocket {h : Handler} (s : Download) (step : h.onSocket = true) :
    (s.start h).balance owes settled = s.balance owes settled + 1 := by
  have owed : owes ⟨h, none⟩ = true := by simp [owes, step]
  rw [Loop.balance_start, owed]
  rfl

theorem balance_deadlineHandler (phase : Phase) (e : Ec) (s : Download) :
    (deadlineHandler phase e s).balance owes settled = s.balance owes settled := by
  unfold deadlineHandler
  split
  next =>
    exact Loop.balance_cancel (fun h _ => owes_congr h _ _) settled s
  next => rfl

theorem deadlineHandler_delivered (phase : Phase) (e : Ec) (s : Download) :
    (deadlineHandler phase e s).state.delivered = s.state.delivered := by
  unfold deadlineHandler
  split <;> rfl

theorem balance_connectHandler (self : HTTPDevice) (e : Ec) (s : Download) :
    (connectHandler self e s).balance owes settled = s.balance owes settled + 1 := by
  unfold connectHandler
  split
  next => rw [balance_start_onSocket _ rfl, balance_armDeadline, balance_cancelDeadline]
  next => rw [balance_handleRead, balance_cancelDeadline]

theorem balance_handshakeHandler (self : HTTPDevice) (e : Ec) (s : Download) :
    (handshakeHandler self e s).balance owes settled = s.balance owes settled + 1 := by
  unfold handshakeHandler startHTTPGet
  split
  next => rw [balance_start_onSocket _ rfl, balance_armDeadline, balance_cancelDeadline]
  next => rw [balance_handleRead, balance_cancelDeadline]

theorem balance_writeHandler (self : HTTPDevice) (e : Ec) (s : Download) :
    (writeHandler self e s).balance owes settled = s.balance owes settled + 1 := by
  unfold writeHandler
  split
  next => exact balance_start_onSocket s rfl
  next => rw [balance_handleRead, balance_cancelDeadline]

theorem balance_readHandler (self : HTTPDevice) (e : Ec) (headerbuff : Str) (s : Download) :
    (readHandler self e headerbuff s).balance owes settled = s.balance owes settled + 1 := by
  unfold readHandler
  split
  next => rw [balance_handleRead, balance_cancelDeadline]
  next =>
    split <;> rw [balance_handleRead, balance_cancelDeadline]

/-- Every handler passes its debt on to one new entry or settles it. -/
theorem balance_run (h : Handler) (e : Ec) (headerbuff : Str) (s : Download) :
    (h.run e headerbuff s).balance owes settled =
      s.balance owes settled + if owes ⟨h, some e⟩ then 1 else 0 := by
  cases h with
  | connect self => exact balance_connectHandler self e s
  | handshake self => exact balance_handshakeHandler self e s
  | write self request => exact balance_writeHandler self e s
  | read self => exact balance_readHandler self e headerbuff s
  | deadline phase => exact balance_deadlineHandler phase e s
  | completion err => exact balance_handleRead _ s

theorem step_balance {s t : Download} {l : Label Ec Str Empty} (h : machine.step s l = some t) :
    t.balance owes settled = s.balance owes settled := by
  refine Machine.step_balance (fun h e _ => owes_congr h _ _) ?_ (fun a => a.elim) h
  intro k o x e rest _ _ hrun
  cases Option.some.inj hrun
  exact balance_run x e o _

/-- A load starts with a posted failure, or with a connect of its device under its deadline. -/
theorem loadASync_cases {url : Str} {parse save : Bool} {resolve : Resolve} {sni : Option Str}
    {s : Download} (h : HTTPLoader.loadASync url parse save resolve sni = .ok s) :
    (∃ e, s = idle.post (.completion e) .success) ∨
    ((parseHTTPUrl url).1 = true ∧
      s = (armDeadline .connect idle).start (.connect (HTTPLoader.device url parse save))) := by
  unfold HTTPLoader.loadASync at h
  cases hp : parseHTTPUrl url with
  | mk parsed o =>
    simp only [hp] at h
    cases parsed with
    | false => exact .inl ⟨_, (Except.ok.inj h).symm⟩
    | true =>
      cases resolve with
      | systemError => exact .inl ⟨_, (Except.ok.inj h).symm⟩
      | stdException => exact .inl ⟨_, (Except.ok.inj h).symm⟩
      | unknownException => exact .inl ⟨_, (Except.ok.inj h).symm⟩
      | resolved =>
        cases sni with
        | some reason => cases h
        | none =>
          rw [HTTPLoader.device, hp]
          exact .inr ⟨rfl, (Except.ok.inj h).symm⟩

theorem loadASync_balance {url : Str} {parse save : Bool} {resolve : Resolve} {sni : Option Str}
    {s : Download} (h : HTTPLoader.loadASync url parse save resolve sni = .ok s) :
    s.balance owes settled = 1 := by
  obtain ⟨e, rfl⟩ | ⟨_, rfl⟩ := loadASync_cases h
  · rfl
  · rfl

theorem reaches_balance {url : Str} {parse save : Bool} {resolve : Resolve} {sni : Option Str}
    {C : Download → Label Ec Str Empty → Prop} {d s : Download}
    (load : HTTPLoader.loadASync url parse save resolve sni = .ok d)
    (reach : Reaches machine.step C d s) : s.balance owes settled = 1 := by
  apply Reaches.invariant (P := fun s => s.balance owes settled = 1) _ reach (loadASync_balance load)
  intro t l u ht _ hstep
  rw [step_balance hstep, ht]

/-- The device whose members a handler uses. -/
def Handler.device : Handler → Option HTTPDevice
  | connect self => some self
  | handshake self => some self
  | write self _ => some self
  | read self => some self
  | deadline _ => none
  | completion _ => none

theorem mem_cancelDeadline {phase : Phase} {s : Download} {x : Entry Handler Ec}
    (h : x ∈ (cancelDeadline phase s).pool) : ∃ y ∈ s.pool, y.handler = x.handler := by
  obtain ⟨y, hy, rfl⟩ := List.mem_map.mp h
  exact ⟨y, hy, (Entry.abort_handler _ _ y).symm⟩

theorem mem_deadlineHandler {phase : Phase} {e : Ec} {s : Download} {x : Entry Handler Ec}
    (h : x ∈ (deadlineHandler phase e s).pool) : ∃ y ∈ s.pool, y.handler = x.handler := by
  unfold deadlineHandler at h
  split at h
  next =>
    obtain ⟨y, hy, rfl⟩ := List.mem_map.mp h
    exact ⟨y, hy, (Entry.abort_handler _ _ y).symm⟩
  next => exact ⟨x, h, rfl⟩

theorem connectHandler_error {self : HTTPDevice} {e : Ec} {s : Download} (bad : e ≠ .success) :
    connectHandler self e s =
      handleRead (failed .connect .connectError (cancelDeadline .connect s)) (cancelDeadline .connect s) :=
  if_neg bad

theorem handshakeHandler_error {self : HTTPDevice} {e : Ec} {s : Download} (bad : e ≠ .success) :
    handshakeHandler self e s =
      handleRead (failed .handshake .handshakeError (cancelDeadline .handshake s))
        (cancelDeadline .handshake s) :=
  if_neg bad

theorem writeHandler_error {self : HTTPDevice} {e : Ec} {s : Download} (bad : e ≠ .success) :
    writeHandler self e s =
      handleRead (failed .get .reqFailed (cancelDeadline .get s)) (cancelDeadline .get s) :=
  if_neg bad

theorem readHandler_error {self : HTTPDevice} {e : Ec} {headerbuff : Str} {s : Download}
    (bad : e ≠ .success ∧ e ≠ .eof) :
    readHandler self e headerbuff s =
      handleRead (failed .get .conInterrupt (cancelDeadline .get s)) (cancelDeadline .get s) :=
  if_pos bad

theorem readHandler_done (self : HTTPDevice) {e : Ec} (headerbuff : Str) (s : Download)
    (ok : ¬ (e ≠ .success ∧ e ≠ .eof)) :
    (find "\r\n\r\n".toList headerbuff = none ∧ readHandler self e headerbuff s =
      handleRead (.failure (.httpDevice .noHeader)) (cancelDeadline .get s)) ∨
    ∃ headerEnd, find "\r\n\r\n".toList headerbuff = some headerEnd ∧
      readHandler self e headerbuff s =
        handleRead ⟨.success (some ⟨[filename self.httpPath], [headerbuff.drop (headerEnd + 4)]⟩),
          self.parse, self.save⟩ (cancelDeadline .get s) := by
  cases hf : find "\r\n\r\n".toList headerbuff with
  | none => exact .inl ⟨rfl, by simp only [readHandler, if_neg ok, hf]⟩
  | some headerEnd => exact .inr ⟨headerEnd, rfl, by simp only [readHandler, if_neg ok, hf]⟩

theorem mem_start {h : Handler} {s : Download} {x : Entry Handler Ec}
    (hx : x ∈ (s.start h).pool) : x ∈ s.pool ∨ x = ⟨h, none⟩ := by
  simpa using hx

/-- What a handler may start. -/
def Handler.next : Handler → List Handler
  | connect self => [.deadline .handshake, .handshake self]
  | handshake self => [.deadline .get, .write self (sent self.getRequest)]
  | write self _ => [.read self]
  | read _ => []
  | deadline _ => []
  | completion _ => []

/-- A handler only starts operations of its own device. -/
theorem Handler.next_device {h x : Handler} (mem : x ∈ h.next) : x.device = h.device ∨ x.device = none := by
  cases h with
  | connect self =>
    rcases List.mem_pair.mp mem with rfl | rfl
    · exact .inr rfl
    · exact .inl rfl
  | handshake self =>
    rcases List.mem_pair.mp mem with rfl | rfl
    · exact .inr rfl
    · exact .inl rfl
  | write self request => exact .inl (List.mem_singleton.mp mem ▸ rfl)
  | read self => cases mem
  | deadline phase => cases mem
  | completion err => cases mem

/-- Every operation after a handler was there before or is one that the handler starts. -/
theorem run_mem {h : Handler} {e : Ec} {headerbuff : Str} {s : Download} {x : Entry Handler Ec}
    (hx : x ∈ (h.run e headerbuff s).pool) : (∃ y ∈ s.pool, y.handler = x.handler) ∨ x.handler ∈ h.next := by
  cases h with
  | connect self =>
    change x ∈ (connectHandler self e s).pool at hx
    by_cases ok : e = .success
    · subst ok
      rcases mem_start hx with old | rfl
      · rcases mem_start old with older | rfl
        · exact .inl (mem_cancelDeadline older)
        · exact .inr List.mem_cons_self
      · exact .inr (List.mem_cons_of_mem _ List.mem_cons_self)
    · rw [connectHandler_error ok] at hx
      exact .inl (mem_cancelDeadline hx)
  | handshake self =>
    change x ∈ (handshakeHandler self e s).pool at hx
    by_cases ok : e = .success
    · subst ok
      rcases mem_start hx with old | rfl
      · rcases mem_start old with older | rfl
        · exact .inl (mem_cancelDeadline older)
        · exact .inr List.mem_cons_self
      · exact .inr (List.mem_cons_of_mem _ List.mem_cons_self)
    · rw [handshakeHandler_error ok] at hx
      exact .inl (mem_cancelDeadline hx)
  | write self request =>
    change x ∈ (writeHandler self e s).pool at hx
    by_cases ok : e = .success
    · subst ok
      rcases mem_start hx with old | rfl
      · exact .inl ⟨x, old, rfl⟩
      · exact .inr List.mem_cons_self
    · rw [writeHandler_error ok] at hx
      exact .inl (mem_cancelDeadline hx)
  | read self =>
    change x ∈ (readHandler self e headerbuff s).pool at hx
    by_cases bad : e ≠ .success ∧ e ≠ .eof
    · rw [readHandler_error bad] at hx
      exact .inl (mem_cancelDeadline hx)
    · rcases readHandler_done self headerbuff s bad with ⟨_, eq⟩ | ⟨_, _, eq⟩ <;>
      · rw [eq] at hx
        exact .inl (mem_cancelDeadline hx)
  | deadline phase => exact .inl (mem_deadlineHandler hx)
  | completion err => exact .inl ⟨x, hx, rfl⟩

/-- A property of the handlers is kept when those that are started have it. -/
theorem run_carries {A : Handler → Prop} {B : Progress → Prop} {h : Handler} {e : Ec} {headerbuff : Str} {s : Download}
    (hs : Carries (fun _ x => A x) B s) (next : ∀ x ∈ h.next, A x) (state : B (h.run e headerbuff s).state) :
    Carries (fun _ x => A x) B (h.run e headerbuff s) := by
  refine ⟨fun x hx => ?_, state⟩
  rcases run_mem hx with ⟨y, hy, same⟩ | started
  · exact same ▸ hs.pool y hy
  · exact next _ started

/-- Whether a handler goes on or delivers a file: its operation ended well, and a read holds a header. -/
def Handler.succeeds (h : Handler) (e : Ec) (headerbuff : Str) : Prop :=
  match h with
  | read _ => (e = .success ∨ e = .eof) ∧ find "\r\n\r\n".toList headerbuff ≠ none
  | completion _ => False
  | _ => e = .success

theorem run_fails {h : Handler} {e : Ec} {headerbuff : Str} (s : Download)
    (step : owes ⟨h, some e⟩ = true) (bad : ¬ h.succeeds e headerbuff) :
    ∃ err, (h.run e headerbuff s).state.delivered = s.state.delivered ++ [.failure err] := by
  cases h with
  | connect self =>
    change ∃ err, (connectHandler self e s).state.delivered = _
    rw [connectHandler_error bad]
    exact ⟨_, rfl⟩
  | handshake self =>
    change ∃ err, (handshakeHandler self e s).state.delivered = _
    rw [handshakeHandler_error bad]
    exact ⟨_, rfl⟩
  | write self request =>
    change ∃ err, (writeHandler self e s).state.delivered = _
    rw [writeHandler_error bad]
    exact ⟨_, rfl⟩
  | read self =>
    change ∃ err, (readHandler self e headerbuff s).state.delivered = _
    by_cases interrupted : e ≠ .success ∧ e ≠ .eof
    · rw [readHandler_error interrupted]
      exact ⟨_, rfl⟩
    · rcases readHandler_done self headerbuff s interrupted with ⟨_, eq⟩ | ⟨headerEnd, found, _⟩
      · rw [eq]
        exact ⟨_, rfl⟩
      · have ended : e = .success ∨ e = .eof := by tauto
        exact absurd ⟨ended, by rw [found]; exact Option.some_ne_none _⟩ bad
  | deadline phase => cases step
  | completion err => exact ⟨err, rfl⟩

/-- What a handler hands to `handle_read`: nothing, a failure, or the file it has read. -/
theorem run_delivered (h : Handler) (e : Ec) (headerbuff : Str) (s : Download) :
    (h.run e headerbuff s).state.delivered = s.state.delivered ∨
    (∃ err, (h.run e headerbuff s).state.delivered = s.state.delivered ++ [.failure err]) ∨
    ∃ self content, h = .read self ∧ (h.run e headerbuff s).state.delivered =
      s.state.delivered ++ [⟨.success (some ⟨[filename self.httpPath], [content]⟩), self.parse, self.save⟩] := by
  by_cases step : owes ⟨h, some e⟩ = true
  · by_cases ok : h.succeeds e headerbuff
    · cases h with
      | connect self => cases ok; exact .inl rfl
      | handshake self => cases ok; exact .inl rfl
      | write self request => cases ok; exact .inl rfl
      | read self =>
        have ended : ¬ (e ≠ .success ∧ e ≠ .eof) := by have := ok.1; tauto
        rcases readHandler_done self headerbuff s ended with ⟨none, _⟩ | ⟨headerEnd, _, eq⟩
        · exact absurd none ok.2
        · exact .inr (.inr ⟨self, _, rfl, congrArg (fun t => t.state.delivered) eq⟩)
      | deadline phase => cases step
      | completion err => exact ok.elim
    · exact .inr (.inl (run_fails s step ok))
  · cases h with
    | deadline phase => exact .inl (deadlineHandler_delivered phase e s)
    | connect self => exact absurd rfl step
    | handshake self => exact absurd rfl step
    | write self request => exact absurd rfl step
    | read self => exact absurd rfl step
    | completion err => exact absurd rfl step

/-- Failures carry neither flag; a file carries the flags of the call. -/
def ReadCall.Sound (parse save : Bool) (c : ReadCall) : Prop :=
  (∃ err, c = .failure err) ∨ ∃ payload, c = ⟨.success (some payload), parse, save⟩

structure Flags (parse save : Bool) (s : Download) : Prop where
  devices : ∀ x ∈ s.pool, ∀ d, x.handler.device = some d → d.parse = parse ∧ d.save = save
  delivered : ∀ c ∈ s.state.delivered, ReadCall.Sound parse save c

theorem run_flags {parse save : Bool} {s : Download} {k : Nat} {h : Handler} {e : Ec}
    {headerbuff : Str} {rest : List (Entry Handler Ec)} (hs : Flags parse save s)
    (hk : takeAt s.pool k = some (⟨h, some e⟩, rest)) :
    Flags parse save (h.run e headerbuff { s with pool := rest }) := by
  have own : ∀ d, h.device = some d → d.parse = parse ∧ d.save = save :=
    hs.devices _ (takeAt_mem hk)
  refine ⟨fun x hx d hd => ?_, fun c hc => ?_⟩
  · rcases run_mem hx with ⟨y, hy, same⟩ | started
    · exact hs.devices y (takeAt_rest_mem hk hy) d (by rw [same, hd])
    · rcases Handler.next_device started with same | none
      · exact own d (same.symm.trans hd)
      · rw [none] at hd
        cases hd
  · rcases run_delivered h e headerbuff { s with pool := rest } with eq | ⟨err, eq⟩ | ⟨self, content, rfl, eq⟩
    · rw [eq] at hc
      exact hs.delivered c hc
    · rw [eq] at hc
      rcases List.mem_append.mp hc with old | new
      · exact hs.delivered c old
      · exact .inl ⟨err, List.mem_singleton.mp new⟩
    · rw [eq] at hc
      obtain ⟨hp, hsv⟩ := own self rfl
      rcases List.mem_append.mp hc with old | new
      · exact hs.delivered c old
      · exact .inr ⟨_, by rw [List.mem_singleton.mp new, hp, hsv]⟩

theorem step_flags {parse save : Bool} {s t : Download} {l : Label Ec Str Empty}
    (hs : Flags parse save s) (h : machine.step s l = some t) : Flags parse save t := by
  rcases Machine.step_cases h with ⟨k, e, x, _, hk, _, rfl⟩ | ⟨k, o, x, e, rest, _, hk, hr⟩ | ⟨a, _, _⟩
  · refine ⟨fun y hy d hd => ?_, hs.delivered⟩
    rcases List.mem_or_eq_of_mem_set hy with old | rfl
    · exact hs.devices y old d hd
    · exact hs.devices _ (List.mem_of_getElem? hk) d hd
  · cases Option.some.inj hr
    exact run_flags hs hk
  · exact a.elim

theorem loadASync_flags {url : Str} {parse save : Bool} {resolve : Resolve} {sni : Option Str}
    {s : Download} (h : HTTPLoader.loadASync url parse save resolve sni = .ok s) :
    Flags parse save s := by
  obtain ⟨e, rfl⟩ | ⟨_, rfl⟩ := loadASync_cases h
  · refine ⟨fun x hx d hd => ?_, fun c hc => by cases hc⟩
    cases List.mem_singleton.mp hx
    cases hd
  · refine ⟨fun x hx d hd => ?_, fun c hc => by cases hc⟩
    rcases mem_start hx with old | rfl
    · cases List.mem_singleton.mp old
      cases hd
    · cases hd
      exact ⟨rfl, rfl⟩

theorem countP_owes_of_unposted {s : Download}
    (unposted : ∀ x ∈ s.pool, x.handler.isCompletion = false) :
    s.pool.countP owes = s.pool.countP fun x => x.handler.onSocket := by
  apply List.countP_congr
  intro x hx
  simp [owes, unposted x hx]

theorem deadlineHandler_completions (phase : Phase) (e : Ec) (s : Download) :
    (deadlineHandler phase e s).pool.countP (fun x => x.handler.isCompletion) =
      s.pool.countP fun x => x.handler.isCompletion := by
  unfold deadlineHandler
  split
  next => exact countP_map_abort (fun _ _ => rfl) s.pool
  next => rfl

/-- A download reports to `handle_read` at most once, and until it has it is in
exactly one step; errors report a failure, and the deadlines report nothing. -/
theorem download_reports_once {url : Str} {parse save : Bool} {resolve : Resolve} {d s : Download}
    (load : HTTPLoader.loadASync url parse save resolve none = .ok d)
    (reach : Reaches machine.step Free d s) :
    s.state.delivered.length ≤ 1 ∧
    (s.state.delivered = [] → (∀ x ∈ s.pool, x.handler.isCompletion = false) →
      s.pool.countP (fun x => x.handler.onSocket) = 1) ∧
    (∀ c ∈ s.state.delivered, ReadCall.Sound parse save c) ∧
    (∀ k o h e rest t, takeAt s.pool k = some (⟨h, some e⟩, rest) →
      machine.step s (.run k o) = some t → owes ⟨h, some e⟩ = true → ¬ h.succeeds e o →
      ∃ err, t.state.delivered = s.state.delivered ++ [.failure err]) ∧
    (∀ k o phase e rest t, takeAt s.pool k = some (⟨.deadline phase, some e⟩, rest) →
      machine.step s (.run k o) = some t →
      t.state.delivered = s.state.delivered ∧
      t.pool.countP (fun x => x.handler.isCompletion) =
        s.pool.countP fun x => x.handler.isCompletion) := by
  have balanced := reaches_balance load reach
  have flags : Flags parse save s :=
    reach.invariant (fun _ _ _ ht _ hstep => step_flags ht hstep) (loadASync_flags load)
  refine ⟨Loop.settled_le_one balanced, ?_, flags.delivered, ?_, ?_⟩
  · intro none unposted
    rw [← countP_owes_of_unposted unposted]
    exact Loop.owed_of_unsettled balanced (by simp [settled, none])
  · intro k o h e rest t hk hstep step bad
    simp only [Machine.step, hk] at hstep
    cases Option.some.inj hstep
    exact run_fails _ step bad
  · intro k o phase e rest t hk hstep
    simp only [Machine.step, hk] at hstep
    cases Option.some.inj hstep
    have count := takeAt_countP (fun x => x.handler.isCompletion) hk
    refine ⟨deadlineHandler_delivered phase e _, ?_⟩
    rw [count]
    exact deadlineHandler_completions phase e _

/-- The download of `https://h:8/p`, to be parsed and not saved. -/
def sample : Download :=
  (armDeadline .connect idle).start (.connect ⟨['h'], ['/', 'p'], ['8'], true, false⟩)

/-- The same download after the server has refused the TLS handshake. -/
def refused : Download :=
  ⟨{ delivered := [.failure (.httpDevice .handshakeError)] },
    [⟨.deadline .connect, some .operationAborted⟩, ⟨.deadline .handshake, some .operationAborted⟩]⟩

/-- The handshake has failed and its handler has not run. -/
def refusing : Download :=
  ⟨{}, [⟨.deadline .connect, some .operationAborted⟩, ⟨.deadline .handshake, none⟩,
    ⟨.handshake ⟨['h'], "/p".toList, ['8'], true, false⟩, some .other⟩]⟩

theorem download_reports_once_refused :
    Reaches machine.step Free sample refusing ∧ machine.step refusing (.run 2 []) = some refused ∧
    refusing.pool.countP (fun x => x.handler.onSocket) = 1 ∧
    (∃ err, refused.state.delivered = [.failure err]) ∧
    refused.state.delivered.length ≤ 1 ∧ (∀ c ∈ refused.state.delivered, ReadCall.Sound true false c) ∧
    ∃ t, machine.step refused (.run 1 []) = some t ∧ t.state.delivered = refused.state.delivered ∧
      t.pool.countP (fun x => x.handler.isCompletion) = 0 := by
  have load : HTTPLoader.loadASync "h:8/p".toList true false .resolved none = .ok sample := rfl
  have reach : Reaches machine.step Free sample refusing :=
    reaches_of_exec (show exec machine.step sample
      [.finish 1 .success, .run 1 [], .finish 2 .other] = some refusing by decide)
  have step : machine.step refusing (.run 2 []) = some refused := by decide
  obtain ⟨_, waits, _, fails, _⟩ := download_reports_once load reach
  obtain ⟨once, _, sound, _, silent⟩ := download_reports_once load (reach.next trivial step)
  refine ⟨reach, step, waits rfl (by decide), fails 2 [] _ _ _ _ rfl step rfl (by simp [Handler.succeeds]),
    once, sound, _, rfl, ?_⟩
  exact silent 1 [] .handshake _ _ _ rfl rfl

end HTTPDevice

end AsyncIOManager
