import AsyncIOManager.WSCommon

namespace AsyncIOManager

open Reactor

namespace WSDevice

/-- How each step of a download turns out. -/
structure Outcomes where
  resolve : Resolve
  connect : Ec
  handshake : Ec
  wsHandshake : Ec
  write : Ec
  read : Ec
deriving DecidableEq, Repr

def Outcomes.of (o : Outcomes) : Handler → Ec
  | .connect _ endpoints => if endpoints = 0 then .error else o.connect
  | .handshake _ => o.handshake
  | .wsHandshake _ => o.wsHandshake
  | .write _ _ => o.write
  | .read _ => o.read
  | .completion _ => .success

/-- Operations finish as `o` says. -/
def Follows (o : Outcomes) (s : Download) (l : Label Ec Str Empty) : Prop :=
  ∀ k e h, l = .finish k e → s.pool[k]? = some ⟨h, none⟩ → e = o.of h

/-- Whether the handler leads to a delivery when the steps turn out as `o` says:
only a write that fails is forgotten. -/
def Outcomes.delivers (o : Outcomes) (h : Handler) : Bool :=
  match h with
  | .write _ _ => o.write = .success
  | .wsHandshake _ => o.wsHandshake = .error || o.write = .success
  | .handshake _ => o.handshake = .error || o.wsHandshake = .error || o.write = .success
  | .connect self endpoints => o.of (.connect self endpoints) = .error || o.handshake = .error ||
      o.wsHandshake = .error || o.write = .success
  | .read _ => true
  | .completion _ => true

def settled (p : Progress) : Nat := p.delivered.length

/-- The pool holds handlers of operations that ended as `o` says, and posted completions. -/
def Agrees (o : Outcomes) (s : Download) : Prop :=
  ∀ x ∈ s.pool, x.outcome = some (o.of x.handler) ∨
    (x.outcome = none ∧ x.handler.completes (o.of x.handler) = true)

theorem completes_of (o : Outcomes) (h : Handler) (step : ∀ e, h ≠ .completion e) :
    h.completes (o.of h) = true := by
  cases h with
  | connect self endpoints =>
    by_cases none : endpoints = 0 <;> simp [Handler.completes, Outcomes.of, none]
  | handshake self => rfl
  | wsHandshake self => rfl
  | write self request => rfl
  | read self => rfl
  | completion e => exact absurd rfl (step e)

theorem Agrees.start {o : Outcomes} {s : Download} {h : Handler} (hs : Agrees o s)
    (step : ∀ e, h ≠ .completion e) : Agrees o (s.start h) := by
  intro x hx
  rcases List.mem_append.mp hx with old | new
  · exact hs x old
  · obtain rfl := List.mem_singleton.mp new
    exact .inr ⟨rfl, completes_of o h step⟩

theorem Agrees.post {o : Outcomes} {s : Download} {e : ErrorCode} (hs : Agrees o s) :
    Agrees o (s.post (.completion e) .success) := by
  intro x hx
  rcases List.mem_append.mp hx with old | new
  · exact hs x old
  · obtain rfl := List.mem_singleton.mp new
    exact .inl rfl

theorem agrees_idle (o : Outcomes) : Agrees o idle := by
  intro x hx
  cases hx

/-- How many steps of the download can follow. -/
def Handler.level : Handler → Nat
  | .connect _ _ => 5
  | .handshake _ => 4
  | .wsHandshake _ => 3
  | .write _ _ => 2
  | .read _ => 1
  | .completion _ => 0

/-- What a handler does: deliver, go on with the next step, or nothing after a failed write. -/
theorem run_cases (h : Handler) (e : Ec) (buffer : Str) (s : Download) :
    (∃ c, h.run e buffer s = handleRead c s) ∨
    (e = .success ∧ ∃ next : Handler, (∀ err, next ≠ .completion err) ∧ next.level < h.level ∧
      h.run e buffer s = s.start next) ∨
    (∃ self request, h = .write self request ∧ e = .error ∧ h.run e buffer s = s) := by
  cases h with
  | connect self endpoints =>
    cases e with
    | success => exact .inr (.inl ⟨rfl, .handshake self, by simp, Nat.lt_succ_self _, rfl⟩)
    | error => exact .inl ⟨_, rfl⟩
  | handshake self =>
    cases e with
    | success => exact .inr (.inl ⟨rfl, .wsHandshake self, by simp, Nat.lt_succ_self _, rfl⟩)
    | error => exact .inl ⟨_, rfl⟩
  | wsHandshake self =>
    cases e with
    | success => exact .inr (.inl ⟨rfl, .write self _, by simp, Nat.lt_succ_self _, rfl⟩)
    | error => exact .inl ⟨_, rfl⟩
  | write self request =>
    cases e with
    | success => exact .inr (.inl ⟨rfl, .read self, by simp, Nat.lt_succ_self _, rfl⟩)
    | error => exact .inr (.inr ⟨self, request, rfl, rfl, rfl⟩)
  | read self => cases e <;> exact .inl ⟨_, rfl⟩
  | completion err => exact .inl ⟨_, rfl⟩

theorem Agrees.run {o : Outcomes} {s : Download} (hs : Agrees o s) (h : Handler) (e : Ec) (buffer : Str) :
    Agrees o (h.run e buffer s) := by
  rcases run_cases h e buffer s with ⟨c, eq⟩ | ⟨_, next, step, _, eq⟩ | ⟨_, _, _, _, eq⟩
  · rw [eq]
    exact hs
  · rw [eq]
    exact hs.start step
  · rwa [eq]

theorem Agrees.rest {o : Outcomes} {s : Download} {k : Nat} {x : Entry Handler Ec}
    {rest : List (Entry Handler Ec)} (hs : Agrees o s) (hk : takeAt s.pool k = some (x, rest)) :
    Agrees o { s with pool := rest } :=
  fun y hy => hs y (takeAt_rest_mem hk hy)

theorem Agrees.step {o : Outcomes} {s t : Download} {l : Label Ec Str Empty} (hs : Agrees o s)
    (follows : Follows o s l) (h : machine.step s l = some t) : Agrees o t := by
  rcases Machine.step_cases h with ⟨k, e, x, hl, hk, hc, rfl⟩ | ⟨k, b, x, e, rest, _, hk, hr⟩ | ⟨a, _, _⟩
  · intro y hy
    rcases List.mem_or_eq_of_mem_set hy with old | rfl
    · exact hs y old
    · exact .inl (congrArg some (follows k e x hl hk))
  · cases Option.some.inj hr
    exact (hs.rest hk).run x e b
  · exact a.elim

/-- A handler whose operation ended as `o` says passes on or settles what it owes. -/
theorem balance_run (o : Outcomes) (h : Handler) (buffer : Str) (s : Download) :
    (h.run (o.of h) buffer s).balance (fun x => o.delivers x.handler) settled =
      s.balance (fun x => o.delivers x.handler) settled + if o.delivers h then 1 else 0 := by
  have deliver (c : ReadCall) : (handleRead c s).balance (fun x => o.delivers x.handler) settled =
      s.balance (fun x => o.delivers x.handler) settled + 1 := by
    simp only [Loop.balance, handleRead, settled, List.length_append, List.length_singleton]
    omega
  have next (g : Handler) (same : o.delivers g = o.delivers h) :
      (s.start g).balance (fun x => o.delivers x.handler) settled =
      s.balance (fun x => o.delivers x.handler) settled + if o.delivers h then 1 else 0 := by
    rw [Loop.balance_start, same]
  cases h with
  | connect self endpoints =>
    cases he : o.of (.connect self endpoints) with
    | success => exact next (.handshake self) (by simp [Outcomes.delivers, he])
    | error =>
      have owed : o.delivers (.connect self endpoints) = true := by simp [Outcomes.delivers, he]
      rw [owed, if_pos rfl]
      exact deliver _
  | handshake self =>
    cases he : o.handshake with
    | success =>
      simp only [Outcomes.of, he]
      exact next (.wsHandshake self) (by simp [Outcomes.delivers, he])
    | error =>
      have owed : o.delivers (.handshake self) = true := by simp [Outcomes.delivers, he]
      rw [owed, if_pos rfl]
      simp only [Outcomes.of, he]
      exact deliver _
  | wsHandshake self =>
    cases he : o.wsHandshake with
    | success =>
      simp only [Outcomes.of, he]
      exact next (.write self _) (by simp [Outcomes.delivers, he])
    | error =>
      have owed : o.delivers (.wsHandshake self) = true := by simp [Outcomes.delivers, he]
      rw [owed, if_pos rfl]
      simp only [Outcomes.of, he]
      exact deliver _
  | write self request =>
    cases he : o.write with
    | success =>
      simp only [Outcomes.of, he]
      exact next (.read self) (by simp [Outcomes.delivers, he])
    | error =>
      have nothing : o.delivers (.write self request) = false := by simp [Outcomes.delivers, he]
      simp only [Outcomes.of, he, nothing]
      rfl
  | read self =>
    have owed : o.delivers (.read self) = true := rfl
    rw [owed, if_pos rfl]
    cases he : o.read <;> (simp only [Outcomes.of, he]; exact deliver _)
  | completion err => exact deliver _

theorem step_balance {o : Outcomes} {s t : Download} {l : Label Ec Str Empty} (hs : Agrees o s)
    (h : machine.step s l = some t) :
    t.balance (fun x => o.delivers x.handler) settled =
      s.balance (fun x => o.delivers x.handler) settled := by
  refine Machine.step_balance (fun _ _ _ => rfl) ?_ (fun a => a.elim) h
  intro k buffer x e rest _ hk hrun
  cases Option.some.inj hrun
  rcases hs _ (takeAt_mem hk) with done | ⟨running, _⟩
  · have same : e = o.of x := Option.some.inj done
    subst same
    exact balance_run o x buffer _
  · cases running

def Entry.rank (x : Entry Handler Ec) : Nat :=
  2 * x.handler.level + if x.outcome = none then 2 else 1

def rank (s : Download) : Nat := (s.pool.map Entry.rank).sum

theorem rank_start (s : Download) (h : Handler) : rank (s.start h) = rank s + (2 * h.level + 2) := by
  simp [rank, Entry.rank]

theorem progress {o : Outcomes} {s : Download} (hs : Agrees o s) (busy : s.pool ≠ []) :
    ∃ l t, Follows o s l ∧ machine.step s l = some t ∧ rank t < rank s := by
  obtain ⟨x, rest, hp⟩ := List.exists_cons_of_ne_nil busy
  obtain ⟨h, out⟩ := x
  have first : s.pool[0]? = some ⟨h, out⟩ := by simp [hp]
  have whole : rank s = Entry.rank ⟨h, out⟩ + rank { s with pool := rest } := by simp [rank, hp]
  have own : out = some (o.of h) ∨ (out = none ∧ h.completes (o.of h) = true) :=
    hs ⟨h, out⟩ (by simp [hp])
  rcases own with rfl | ⟨rfl, ends⟩
  · have taken : takeAt s.pool 0 = some (⟨h, some (o.of h)⟩, rest) := by simp [takeAt, hp]
    refine ⟨.run 0 [], h.run (o.of h) [] { s with pool := rest }, by simp [Follows], ?_, ?_⟩
    · simp only [Machine.step, taken]
      rfl
    · rw [whole]
      rcases run_cases h (o.of h) [] { s with pool := rest } with
      ⟨c, eq⟩ | ⟨_, next, _, lower, eq⟩ | ⟨_, _, _, _, eq⟩
      · rw [eq]
        simp [Entry.rank, rank, handleRead]
      · rw [eq, rank_start]
        simp only [Entry.rank, reduceCtorEq, if_false]
        omega
      · rw [eq]
        simp [Entry.rank]
  · refine ⟨.finish 0 (o.of h), { s with pool := s.pool.set 0 ⟨h, some (o.of h)⟩ }, ?_, ?_, ?_⟩
    · rintro k e g ⟨rfl, rfl⟩ hk
      rw [first] at hk
      cases hk
      rfl
    · simp only [Machine.step, first]
      exact if_pos ends
    · rw [whole]
      simp [rank, Entry.rank, hp]

/-- `handle_read` is invoked exactly once: never twice, and at the end of every run. -/
def ReportsOnce (o : Outcomes) (d : Download) : Prop :=
  ∀ s, Reaches machine.step (Follows o) d s →
    s.state.delivered.length ≤ 1 ∧ (s.pool = [] → s.state.delivered.length = 1) ∧
    ∃ t, Reaches machine.step (Follows o) s t ∧ t.pool = []

theorem run_ends {o : Outcomes} {s : Download} (hs : Agrees o s) :
    ∃ t, Reaches machine.step (Follows o) s t ∧ t.pool = [] :=
  Reaches.ends rank (fun _ _ _ ht follows hstep => ht.step follows hstep)
    (fun _ ht busy => progress ht busy) hs

theorem reaches_agrees {o : Outcomes} {d s : Download} (hd : Agrees o d)
    (reach : Reaches machine.step (Follows o) d s) : Agrees o s :=
  reach.invariant (fun _ _ _ ht follows hstep => ht.step follows hstep) hd

theorem reaches_balance {o : Outcomes} {d s : Download} (hd : Agrees o d)
    (reach : Reaches machine.step (Follows o) d s) :
    s.balance (fun x => o.delivers x.handler) settled =
      d.balance (fun x => o.delivers x.handler) settled := by
  induction reach with
  | start => rfl
  | next before _ hstep ih => rw [step_balance (reaches_agrees hd before) hstep, ih]

/-- A run delivers as often as its start owes. -/
theorem reportsOnce_iff_balance {o : Outcomes} {d : Download} (hd : Agrees o d) :
    ReportsOnce o d ↔ d.balance (fun x => o.delivers x.handler) settled = 1 := by
  constructor
  · intro once
    obtain ⟨t, reach, idle⟩ := run_ends hd
    have delivered := (once t reach).2.1 idle
    rw [← reaches_balance hd reach]
    simpa [Loop.balance, idle, settled] using delivered
  · intro owed s reach
    have balanced := (reaches_balance hd reach).trans owed
    refine ⟨Loop.settled_le_one balanced, fun idle => ?_, run_ends (reaches_agrees hd reach)⟩
    exact Loop.settled_of_idle balanced (by simp [idle])

theorem loadASync_agrees (o : Outcomes) (url : Str) (parse save : Bool) :
    Agrees o (WSLoader.loadASync url parse save o.resolve) := by
  unfold WSLoader.loadASync startWSDownload
  cases parseHTTPUrl url with
  | mk parsed u =>
    cases parsed with
    | false => exact (agrees_idle o).post
    | true =>
      cases o.resolve with
      | resolved endpoints => exact (agrees_idle o).start (by simp)
      | systemError => exact (agrees_idle o).post.start (by simp)
      | stdException => exact (agrees_idle o).post.start (by simp)
      | unknownException => exact (agrees_idle o).post.start (by simp)

/-- A load reports exactly once unless the address does not resolve or the
request cannot be written. -/
theorem load_reports_once_iff (url : Str) (parse save : Bool) (o : Outcomes) :
    ReportsOnce o (WSLoader.loadASync url parse save o.resolve) ↔
      (parseHTTPUrl url).1 = false ∨ ∃ endpoints, o.resolve = .resolved endpoints ∧
        ¬ (endpoints ≠ 0 ∧ o.connect = .success ∧ o.handshake = .success ∧
          o.wsHandshake = .success ∧ o.write = .error) := by
  rw [reportsOnce_iff_balance (loadASync_agrees o url parse save)]
  unfold WSLoader.loadASync startWSDownload
  cases parseHTTPUrl url with
  | mk parsed u =>
    cases parsed with
    | false => simp [Loop.balance, idle, settled, Outcomes.delivers]
    | true =>
      cases o.resolve with
      | resolved endpoints =>
        have ec (e : Ec) : e = .error ↔ ¬ e = .success := by cases e <;> simp
        by_cases none : endpoints = 0
        · simp [Loop.balance, idle, settled, Outcomes.delivers, Outcomes.of, none]
        · simp [Loop.balance, idle, settled, Outcomes.delivers, Outcomes.of, none, ec]
      | systemError => simp [Loop.balance, idle, settled, Outcomes.delivers, Outcomes.of]
      | stdException => simp [Loop.balance, idle, settled, Outcomes.delivers, Outcomes.of]
      | unknownException => simp [Loop.balance, idle, settled, Outcomes.delivers, Outcomes.of]

/-- A host that does not resolve is reported twice, a request that cannot be
written never. -/
theorem load_reports_twice_and_never :
    (∃ s, Reaches machine.step Free (WSLoader.loadASync "h/p".toList false false .systemError) s ∧
      s.state.delivered = [.failure (.wsDevice .couldNotResolve), .failure (.wsDevice .connectError)]) ∧
    (∃ s, Reaches machine.step Free (WSLoader.loadASync "h/p".toList false false (.resolved 1)) s ∧
      s.pool = [] ∧ s.state.delivered = []) := by
  have twice : exec machine.step (WSLoader.loadASync "h/p".toList false false .systemError)
      [.run 0 [], .finish 0 .error, .run 0 []] =
      some ⟨⟨[.failure (.wsDevice .couldNotResolve), .failure (.wsDevice .connectError)]⟩, []⟩ := by
    decide
  have never : exec machine.step (WSLoader.loadASync "h/p".toList false false (.resolved 1))
      [.finish 0 .success, .run 0 [], .finish 0 .success, .run 0 [], .finish 0 .success, .run 0 [],
        .finish 0 .error, .run 0 []] = some ⟨⟨[]⟩, []⟩ := by
    decide
  exact ⟨⟨_, reaches_of_exec twice, rfl⟩, _, reaches_of_exec never, rfl, rfl⟩

end WSDevice

end AsyncIOManager
