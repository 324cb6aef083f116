import AsyncIOManager.HTTPDeadline
import AsyncIOManager.Held
import AsyncIOManager.Rank

namespace AsyncIOManager

open Reactor Text

namespace HTTPDevice

/-- How many steps a handler of the download can lead to, itself apart. -/
def Handler.steps : Handler → Nat
  | connect _ => 10
  | handshake _ => 6
  | write _ _ => 2
  | read _ => 0
  | deadline _ => 0
  | completion _ => 0

/-- How many steps an entry of the pool can lead to. -/
def weight (x : Entry Handler Ec) : Nat := x.handler.steps + if x.outcome.isSome then 1 else 2

theorem weight_running (h : Handler) : weight ⟨h, none⟩ = h.steps + 2 := rfl

theorem weight_queued (h : Handler) (e : Ec) : weight ⟨h, some e⟩ = h.steps + 1 := rfl

theorem weight_lighter (h : Handler) (e : Ec) : weight ⟨h, some e⟩ < weight ⟨h, none⟩ := by
  rw [weight_running, weight_queued]
  omega

/-- Everything that a handler can do: go on to the next phase, read the answer, report the
end of its step, let a deadline expire, or report a failure that was posted. -/
theorem run_cases (h : Handler) (e : Ec) (headerbuff : Str) (s : Download) :
    (e = .success ∧ ∃ q r x, h.phase = some q ∧ x.phase = some r ∧ x.steps + 4 = h.steps ∧
      h.run e headerbuff s = (armDeadline r (cancelDeadline q s)).start x) ∨
    (e = .success ∧ ∃ self request, h = .write self request ∧
      h.run e headerbuff s = s.start (.read self)) ∨
    (owes ⟨h, some e⟩ = true ∧ (∀ self request, (⟨h, some e⟩ : Entry Handler Ec) ≠ ⟨.write self request, some .success⟩) ∧
      ∃ phase c, h.run e headerbuff s = handleRead c (cancelDeadline phase s)) ∨
    (e = .success ∧ ∃ phase, h = .deadline phase ∧
      (h.run e headerbuff s).pool = (s.cancel Handler.onSocket .operationAborted).pool) ∨
    (e ≠ .success ∧ ∃ phase, h = .deadline phase ∧ h.run e headerbuff s = s) ∨
    ∃ err, h = .completion err ∧ h.run e headerbuff s = handleRead (.failure err) s := by
  cases h with
  | connect self =>
    by_cases ok : e = .success
    · subst ok
      exact .inl ⟨rfl, .connect, .handshake, .handshake self, rfl, rfl, rfl, rfl⟩
    · exact .inr (.inr (.inl ⟨rfl, by simp, _, _, connectHandler_error ok⟩))
  | handshake self =>
    by_cases ok : e = .success
    · subst ok
      exact .inl ⟨rfl, .handshake, .get, .write self (sent self.getRequest), rfl, rfl, rfl, rfl⟩
    · exact .inr (.inr (.inl ⟨rfl, by simp, _, _, handshakeHandler_error ok⟩))
  | write self request =>
    by_cases ok : e = .success
    · subst ok
      exact .inr (.inl ⟨rfl, self, request, rfl, rfl⟩)
    · exact .inr (.inr (.inl ⟨rfl, by simp [ok], _, _, writeHandler_error ok⟩))
  | read self =>
    refine .inr (.inr (.inl ⟨rfl, by simp, .get, ?_⟩))
    by_cases bad : e ≠ .success ∧ e ≠ .eof
    · exact ⟨_, readHandler_error bad⟩
    · rcases readHandler_done self headerbuff s bad with ⟨_, eq⟩ | ⟨_, _, eq⟩
      · exact ⟨_, eq⟩
      · exact ⟨_, eq⟩
  | deadline phase =>
    by_cases ok : e = .success
    · subst ok
      exact .inr (.inr (.inr (.inl ⟨rfl, phase, rfl, rfl⟩)))
    · exact .inr (.inr (.inr (.inr (.inl ⟨ok, phase, rfl, if_neg ok⟩))))
  | completion err => exact .inr (.inr (.inr (.inr (.inr ⟨err, rfl, rfl⟩))))

theorem weight_cancelDeadline (phase : Phase) (s : Download) :
    (cancelDeadline phase s).weight weight ≤ s.weight weight :=
  Loop.weight_cancel (fun h e => Nat.le_of_lt (weight_lighter h e)) s _ _

theorem weight_handleRead (c : ReadCall) (s : Download) :
    (handleRead c s).weight weight = s.weight weight := rfl

theorem weight_run (h : Handler) (e : Ec) (headerbuff : Str) (s : Download) :
    (h.run e headerbuff s).weight weight < s.weight weight + weight ⟨h, some e⟩ := by
  rw [weight_queued]
  rcases run_cases h e headerbuff s with ⟨rfl, q, r, x, _, _, steps, eq⟩ | ⟨rfl, self, request, rfl, eq⟩ |
    ⟨_, _, phase, c, eq⟩ | ⟨rfl, phase, rfl, eq⟩ | ⟨_, phase, rfl, eq⟩ | ⟨err, rfl, eq⟩
  · have lighter := weight_cancelDeadline q s
    have timer : (Handler.deadline r).steps = 0 := rfl
    rw [eq, Loop.weight_start, weight_running, armDeadline, Loop.weight_start, weight_running, timer]
    omega
  · have next : (Handler.read self).steps = 0 := rfl
    have own : (Handler.write self request).steps = 2 := rfl
    rw [eq, Loop.weight_start, weight_running, next, own]
    omega
  · have lighter := weight_cancelDeadline phase s
    rw [eq, weight_handleRead]
    omega
  · have lighter := Loop.weight_cancel (fun h e => Nat.le_of_lt (weight_lighter h e)) s
      Handler.onSocket .operationAborted
    simp only [Loop.weight, eq] at lighter ⊢
    omega
  · rw [eq]
    omega
  · rw [eq, weight_handleRead]
    omega

theorem step_lowers {s t : Download} {l : Label Ec Str Empty} (h : machine.step s l = some t) :
    t.weight weight < s.weight weight := by
  refine Machine.step_lowers weight_lighter ?_ (fun a => a.elim) h
  intro x e o u v hr
  cases Option.some.inj hr
  exact weight_run x e o u

theorem loadASync_weight {url : Str} {parse save : Bool} {resolve : Resolve} {sni : Option Str}
    {s : Download} (h : HTTPLoader.loadASync url parse save resolve sni = .ok s) :
    s.weight weight ≤ 14 := by
  obtain ⟨e, rfl⟩ | ⟨_, rfl⟩ := loadASync_cases h
  · simp [weight, idle, Loop.weight, Handler.steps]
  · simp [weight, idle, Loop.weight, Handler.steps, armDeadline]

/-- A failure is posted, never started. -/
def Posted (s : Download) : Prop := ∀ x ∈ s.pool, x.handler.isCompletion = true → x.outcome ≠ none

theorem Posted.cancelled {s : Download} (h : Posted s) (p : Handler → Bool) (e : Ec) :
    Posted (s.cancel p e) := by
  intro x hx own
  obtain ⟨y, hy, rfl⟩ := List.mem_map.mp hx
  rw [Entry.abort_handler] at own
  unfold Entry.abort
  split
  next => simp
  next => exact h y hy own

theorem Posted.started {s : Download} (h : Posted s) {x : Handler} (step : x.isCompletion = false) :
    Posted (s.start x) := by
  intro y hy own
  rcases mem_start hy with old | rfl
  · exact h y old own
  · rw [step] at own
    cases own

theorem Posted.run {s : Download} (hs : Posted s) (h : Handler) (e : Ec) (headerbuff : Str) :
    Posted (h.run e headerbuff s) := by
  rcases run_cases h e headerbuff s with ⟨_, q, r, x, _, step, _, eq⟩ | ⟨_, self, request, _, eq⟩ |
    ⟨_, _, phase, c, eq⟩ | ⟨_, phase, _, eq⟩ | ⟨_, phase, _, eq⟩ | ⟨err, _, eq⟩
  · rw [eq]
    refine ((hs.cancelled _ _).started rfl).started ?_
    cases x <;> first | rfl | cases step
  · rw [eq]
    exact hs.started rfl
  · rw [eq]
    exact hs.cancelled _ _
  · intro y hy
    rw [eq] at hy
    exact hs.cancelled _ _ y hy
  · rw [eq]
    exact hs
  · rw [eq]
    exact hs

theorem Posted.step {s t : Download} {l : Label Ec Str Empty} (hs : Posted s)
    (h : machine.step s l = some t) : Posted t := by
  rcases Machine.step_cases h with ⟨k, e, x, _, hk, _, rfl⟩ | ⟨k, o, x, e, rest, _, hk, hr⟩ | ⟨a, _, _⟩
  · intro y hy own
    rcases List.mem_or_eq_of_mem_set hy with old | rfl
    · exact hs y old own
    · simp
  · cases Option.some.inj hr
    exact Posted.run (fun y hy => hs y (takeAt_rest_mem hk hy)) x e o
  · exact a.elim

/-- A step of the download in progress, or a written request whose answer is not read yet. -/
def Waits (x : Entry Handler Ec) : Prop :=
  inProgress x = true ∨ ∃ self request, x = ⟨.write self request, some .success⟩

/-- Something is waited for and no deadline watches over it. -/
def Hangs (s : Download) : Prop := (∃ x ∈ s.pool, Waits x) ∧ ∀ y ∈ s.pool, ∀ phase, ¬ Live y phase

/-- The server does nothing more: only deadlines expire, and only queued handlers run. -/
def Silent (s : Download) (l : Label Ec Str Empty) : Prop :=
  ∀ k e h, l = .finish k e → s.pool[k]? = some ⟨h, none⟩ → h.onSocket = false

/-- The last deadline expires when the request has been written and its handler has not run. -/
def TooLate (s : Download) (l : Label Ec Str Empty) : Prop :=
  ∃ k o phase rest, l = .run k o ∧ takeAt s.pool k = some (⟨.deadline phase, some .success⟩, rest) ∧
    (∃ self request, ⟨.write self request, some .success⟩ ∈ rest) ∧ ∀ y ∈ rest, ∀ q, ¬ Live y q

theorem Waits.owes {x : Entry Handler Ec} (h : Waits x) : owes x = true := by
  rcases h with busy | ⟨self, request, rfl⟩
  · simp only [inProgress, Bool.and_eq_true] at busy
    simp [HTTPDevice.owes, busy.1]
  · rfl

theorem Live.not_owes {x : Entry Handler Ec} {phase : Phase} (h : Live x phase) : owes x = false := by
  obtain ⟨handler, outcome⟩ := x
  obtain rfl : handler = .deadline phase := h.1
  rfl

theorem live_armDeadline (r : Phase) (s : Download) (x : Handler) :
    ∃ y ∈ ((armDeadline r s).start x).pool, Live y r :=
  ⟨⟨.deadline r, none⟩, by simp [armDeadline], rfl, .inl rfl⟩

/-- After a report nothing is waited for. -/
theorem handleRead_idle {s : Download} {phase : Phase} {c : ReadCall}
    (alone : ∀ y ∈ s.pool, owes y = false) :
    ¬ ∃ x ∈ (handleRead c (cancelDeadline phase s)).pool, Waits x := by
  rintro ⟨x, hx, waits⟩
  obtain ⟨y, hy, same⟩ := mem_cancelDeadline hx
  have owed := waits.owes
  have none := alone y hy
  unfold owes at owed none
  rw [same, owed] at none
  cases none

section Hang

variable {s t : Download} {l : Label Ec Str Empty}

/-- A deadline outlives the end of the operations on the socket. -/
theorem abort_deadline {x : Entry Handler Ec} {phase : Phase} (own : x.handler = .deadline phase) :
    x.abort Handler.onSocket .operationAborted = x := by
  unfold Entry.abort
  rw [own]
  rfl

/-- When the operations on the socket have been aborted, a download waits only for the answer
to a request that had been written before. -/
theorem hangs_cancel (s : Download) :
    Hangs (s.cancel Handler.onSocket .operationAborted) ↔
      (∃ self request, ⟨.write self request, some .success⟩ ∈ s.pool) ∧ ∀ y ∈ s.pool, ∀ q, ¬ Live y q := by
  constructor
  · rintro ⟨⟨y, hy, waits⟩, unwatched⟩
    obtain ⟨z, hz, rfl⟩ := List.mem_map.mp hy
    have written : ∃ self request, z = ⟨.write self request, some .success⟩ := by
      rcases waits with busy | ⟨self, request, own⟩
      · simp only [inProgress, Entry.abort_handler, Bool.and_eq_true] at busy
        obtain ⟨step, running⟩ := busy
        unfold Entry.abort at running
        split at running
        next => cases running
        next finished => exact absurd ⟨step, running⟩ finished
      · unfold Entry.abort at own
        split at own
        next => exact absurd (congrArg Entry.outcome own) (by simp)
        next => exact ⟨self, request, own⟩
    obtain ⟨self, request, rfl⟩ := written
    refine ⟨⟨self, request, hz⟩, fun w hw q live => ?_⟩
    exact unwatched w (List.mem_map.mpr ⟨w, hw, abort_deadline live.1⟩) q live
  · rintro ⟨⟨self, request, written⟩, unwatched⟩
    refine ⟨⟨⟨.write self request, some .success⟩, List.mem_map.mpr ⟨_, written, rfl⟩, .inr ⟨self, request, rfl⟩⟩, ?_⟩
    intro y hy q live
    obtain ⟨z, hz, rfl⟩ := List.mem_map.mp hy
    have timer : z.handler = .deadline q := by
      rw [← live.1, Entry.abort_handler]
    rw [abort_deadline timer] at live
    exact unwatched z hz q live

/-- Only an expiry that comes too late makes a download hang. -/
theorem hangs_run {k : Nat} {x : Handler} {e : Ec} {o : Str} {rest : List (Entry Handler Ec)}
    (balanced : s.balance owes settled = 1) (runs : ¬ Hangs s)
    (hk : takeAt s.pool k = some (⟨x, some e⟩, rest)) :
    Hangs (x.run e o { s with pool := rest }) ↔ TooLate s (.run k o) := by
  have kept {y : Entry Handler Ec} {q : Phase} (hy : y ∈ s.pool) (live : Live y q)
      (other : owes ⟨x, some e⟩ = true ∨ e ≠ .success) : y ∈ rest := by
    refine takeAt_keeps hk hy ?_
    rintro rfl
    rcases other with owed | bad
    · rw [live.not_owes] at owed
      cases owed
    · rcases live.2 with none | done
      · cases none
      · exact bad (Option.some.inj done)
  have timely (late : TooLate s (.run k o)) : e = .success ∧ owes ⟨x, some e⟩ = false := by
    obtain ⟨_, _, phase, _, same, hk', _⟩ := late
    cases same
    rw [hk] at hk'
    cases hk'
    exact ⟨rfl, rfl⟩
  rcases run_cases x e o { s with pool := rest } with ⟨rfl, q, r, z, hq, _, _, eq⟩ |
    ⟨rfl, self, request, rfl, eq⟩ | ⟨owed, _, phase, c, eq⟩ | ⟨rfl, phase, rfl, eq⟩ |
    ⟨bad, phase, rfl, eq⟩ | ⟨err, rfl, eq⟩
  · rw [eq]
    obtain ⟨y, hy, live⟩ := live_armDeadline r (cancelDeadline q { s with pool := rest }) z
    refine ⟨fun hangs => absurd live (hangs.2 y hy r), fun late => ?_⟩
    have owed : owes ⟨x, some .success⟩ = true := phase_owes hq
    rw [(timely late).2] at owed
    cases owed
  · rw [eq]
    refine ⟨fun hangs => ?_, fun late => absurd (timely late).2 (by simp [owes, Handler.onSocket, Handler.phase])⟩
    refine absurd ?_ runs
    refine ⟨⟨_, takeAt_mem hk, .inr ⟨self, request, rfl⟩⟩, fun y hy q live => ?_⟩
    have mem : y ∈ (({ s with pool := rest } : Download).start (.read self)).pool :=
      List.mem_append_left _ (kept hy live (.inl rfl))
    exact hangs.2 y mem q live
  · rw [eq]
    refine ⟨fun hangs => ?_, fun late => ?_⟩
    · exact absurd hangs.1 (handleRead_idle (Loop.alone balanced hk owed).1)
    · rw [(timely late).2] at owed
      cases owed
  · rw [Hangs, eq]
    refine (hangs_cancel { s with pool := rest }).trans ⟨fun late => ?_, ?_⟩
    · exact ⟨k, o, phase, rest, rfl, hk, late⟩
    · rintro ⟨_, _, _, _, same, hk', late⟩
      cases same
      rw [hk] at hk'
      cases hk'
      exact late
  · rw [eq]
    refine ⟨fun hangs => ?_, fun late => absurd (timely late).1 bad⟩
    refine absurd ?_ runs
    obtain ⟨⟨y, hy, waits⟩, unwatched⟩ := hangs
    exact ⟨⟨y, takeAt_rest_mem hk hy, waits⟩, fun z hz q live => unwatched z (kept hz live (.inr bad)) q live⟩
  · rw [eq]
    refine ⟨fun hangs => ?_, fun late => ?_⟩
    · obtain ⟨⟨y, hy, waits⟩, _⟩ := hangs
      have none := (Loop.alone balanced hk rfl).1 y hy
      rw [waits.owes] at none
      cases none
    · have owed := (timely late).2
      cases owed

/-- An operation that finishes does not make a download hang. -/
theorem hangs_finish {k : Nat} {x : Handler} {e : Ec} (runs : ¬ Hangs s) (hk : s.pool[k]? = some ⟨x, none⟩)
    (ends : x.completes e = true) : ¬ Hangs { s with pool := s.pool.set k ⟨x, some e⟩ } := by
  rintro ⟨⟨y, hy, waits⟩, unwatched⟩
  refine runs ⟨?_, fun z hz q live => ?_⟩
  · rcases List.mem_or_eq_of_mem_set hy with old | rfl
    · exact ⟨y, old, waits⟩
    · refine ⟨_, List.mem_of_getElem? hk, ?_⟩
      rcases waits with busy | ⟨self, request, own⟩
      · simp [inProgress] at busy
      · obtain rfl : x = .write self request := congrArg Entry.handler own
        exact .inl rfl
  · by_cases same : z = ⟨x, none⟩
    · subst same
      obtain rfl : x = .deadline q := live.1
      obtain rfl : e = .success := by simpa [Handler.completes] using ends
      exact unwatched _ (mem_set_own hk) q ⟨rfl, .inr rfl⟩
    · exact unwatched z (mem_set_of_ne hk hz same) q live

/-- A step makes a download hang exactly when it is an expiry that comes too late. -/
theorem hangs_iff (balanced : s.balance owes settled = 1) (runs : ¬ Hangs s)
    (h : machine.step s l = some t) : Hangs t ↔ TooLate s l := by
  rcases Machine.step_cases h with ⟨k, e, x, rfl, hk, ends, rfl⟩ | ⟨k, o, x, e, rest, rfl, hk, hr⟩ | ⟨a, _, _⟩
  · refine ⟨fun hangs => absurd hangs (hangs_finish runs hk ends), ?_⟩
    rintro ⟨_, _, _, _, same, _⟩
    cases same
  · cases Option.some.inj hr
    exact hangs_run balanced runs hk
  · exact a.elim

/-- A download that hangs hangs until the server does something. -/
theorem Hangs.step (hs : Hangs s) (balanced : s.balance owes settled = 1) (silent : Silent s l)
    (h : machine.step s l = some t) : Hangs t := by
  obtain ⟨⟨y, hy, waits⟩, unwatched⟩ := hs
  rcases Machine.step_cases h with ⟨k, e, x, rfl, hk, ends, rfl⟩ | ⟨k, o, x, e, rest, rfl, hk, hr⟩ | ⟨a, _, _⟩
  · have off := silent k e x rfl hk
    cases x with
    | deadline phase => exact absurd ⟨rfl, .inl rfl⟩ (unwatched _ (List.mem_of_getElem? hk) phase)
    | completion err => cases ends
    | connect self => cases off
    | handshake self => cases off
    | write self request => cases off
    | read self => cases off
  · cases Option.some.inj hr
    have left (z : Entry Handler Ec) (hz : z ∈ rest) (q : Phase) : ¬ Live z q :=
      unwatched z (takeAt_rest_mem hk hz) q
    by_cases own : y = ⟨x, some e⟩
    · subst own
      rcases waits with busy | ⟨self, request, written⟩
      · simp [inProgress] at busy
      · cases written
        refine ⟨⟨⟨.read self, none⟩, List.mem_append_right _ List.mem_cons_self, .inl rfl⟩, fun z hz q live => ?_⟩
        rcases mem_start hz with old | rfl
        · exact left z old q live
        · cases live.1
    · have remains := takeAt_keeps hk hy own
      have unowed : owes ⟨x, some e⟩ = false := by
        by_contra owed
        have none := (Loop.alone balanced hk (by simpa using owed)).1 y remains
        rw [waits.owes] at none
        cases none
      cases x with
      | deadline phase =>
        have bad : e ≠ .success := by
          rintro rfl
          exact unwatched _ (takeAt_mem hk) phase ⟨rfl, .inr rfl⟩
        have same : Handler.run (.deadline phase) e o { s with pool := rest } = { s with pool := rest } := if_neg bad
        rw [same]
        exact ⟨⟨y, remains, waits⟩, left⟩
      | completion err => cases unowed
      | connect self => cases unowed
      | handshake self => cases unowed
      | write self request => cases unowed
      | read self => cases unowed
  · exact a.elim

/-- What every state of a download is like. -/
structure Sane (s : Download) : Prop where
  balanced : s.balance owes settled = 1
  posted : Posted s

theorem Sane.step (hs : Sane s) (h : machine.step s l = some t) : Sane t :=
  ⟨(step_balance h).trans hs.balanced, hs.posted.step h⟩

theorem Sane.unreported (hs : Sane s) (untold : s.state.delivered.length ≠ 1) :
    ∃ x ∈ s.pool, owes x = true := by
  by_contra none
  refine untold (Loop.settled_of_idle hs.balanced fun x hx => ?_)
  by_contra owed
  exact none ⟨x, hx, by simpa using owed⟩

/-- A download that does not hang and has not reported goes on without the server. -/
theorem Sane.goes_on (hs : Sane s) (runs : ¬ Hangs s) (untold : s.state.delivered.length ≠ 1) :
    ∃ l t, (Silent s l ∧ ¬ TooLate s l) ∧ machine.step s l = some t := by
  obtain ⟨⟨x, outcome⟩, hx, owed⟩ := hs.unreported untold
  cases outcome with
  | some e =>
    obtain ⟨k, rest, hk⟩ := takeAt_of_mem hx
    refine ⟨.run k [], x.run e [] { s with pool := rest }, ⟨?_, ?_⟩, by simp [Machine.step, hk, machine]⟩
    · intro _ _ _ same
      cases same
    · rintro ⟨_, _, phase, _, same, hk', _⟩
      cases same
      rw [hk] at hk'
      cases hk'
      cases owed
  | none =>
    have step : x.onSocket = true := by
      cases x with
      | completion err => exact absurd rfl (hs.posted _ hx rfl)
      | connect self => rfl
      | handshake self => rfl
      | write self request => rfl
      | read self => rfl
      | deadline phase => cases owed
    have busy : Waits ⟨x, none⟩ := .inl (by simp [inProgress, step])
    obtain ⟨y, hy, phase, live⟩ : ∃ y ∈ s.pool, ∃ phase, Live y phase := by
      by_contra unwatched
      refine runs ⟨⟨_, hx, busy⟩, fun y hy phase live => unwatched ⟨y, hy, phase, live⟩⟩
    obtain ⟨timer, outcome⟩ := y
    obtain rfl : timer = .deadline phase := live.1
    rcases live.2 with running | expired
    · obtain rfl : outcome = none := running
      obtain ⟨k, hk⟩ := List.mem_iff_getElem?.mp hy
      refine ⟨.finish k .success, { s with pool := s.pool.set k ⟨.deadline phase, some .success⟩ }, ⟨?_, ?_⟩,
        by simp [Machine.step, hk, machine, Handler.completes]⟩
      · intro _ _ h same hk'
        cases same
        rw [hk] at hk'
        cases hk'
        rfl
      · rintro ⟨_, _, _, _, same, _⟩
        cases same
    · obtain rfl : outcome = some .success := expired
      obtain ⟨k, rest, hk⟩ := takeAt_of_mem hy
      refine ⟨.run k [], Handler.run (.deadline phase) .success [] { s with pool := rest }, ⟨?_, ?_⟩,
        by simp [Machine.step, hk, machine]⟩
      · intro _ _ _ same
        cases same
      · rintro ⟨_, _, _, _, same, hk', ⟨self, request, written⟩, _⟩
        cases same
        rw [hk] at hk'
        cases hk'
        have one := Loop.owed_eq hs.balanced hx (takeAt_rest_mem hk written) owed rfl
        cases one

end Hang

theorem loadASync_sane {url : Str} {parse save : Bool} {resolve : Resolve} {sni : Option Str}
    {d : Download} (load : HTTPLoader.loadASync url parse save resolve sni = .ok d) : Sane d ∧ ¬ Hangs d := by
  have balanced := loadASync_balance load
  obtain ⟨e, rfl⟩ | ⟨_, rfl⟩ := loadASync_cases load
  · refine ⟨⟨balanced, fun x hx _ => ?_⟩, ?_⟩
    · cases List.mem_singleton.mp hx
      simp
    · rintro ⟨⟨x, hx, waits⟩, _⟩
      cases List.mem_singleton.mp hx
      rcases waits with busy | ⟨_, _, own⟩
      · cases busy
      · cases own
  · refine ⟨⟨balanced, fun x hx own => ?_⟩, ?_⟩
    · rcases mem_start hx with old | rfl
      · cases List.mem_singleton.mp old
        cases own
      · cases own
    · obtain ⟨y, hy, live⟩ := live_armDeadline .connect idle (.connect (HTTPLoader.device url parse save))
      exact fun hangs => hangs.2 y hy .connect live

theorem reaches_sane {url : Str} {parse save : Bool} {resolve : Resolve} {sni : Option Str}
    {C : Download → Label Ec Str Empty → Prop} {d s : Download}
    (load : HTTPLoader.loadASync url parse save resolve sni = .ok d)
    (reach : Reaches machine.step C d s) : Sane s :=
  reach.invariant (fun _ _ _ ht _ hstep => ht.step hstep) (loadASync_sane load).1

/-- Every run of a download is short, and one that cannot go on has reported once. -/
theorem download_ends {url : Str} {parse save : Bool} {resolve : Resolve} {sni : Option Str}
    {d s : Download} (load : HTTPLoader.loadASync url parse save resolve sni = .ok d)
    {ls : List (Label Ec Str Empty)} (run : exec machine.step d ls = some s) :
    ls.length ≤ 14 ∧
    ((∀ l, machine.step s l = none) → s.pool = [] ∧ ∃ c, s.state.delivered = [c]) := by
  constructor
  · have short := exec_length_le (fun _ _ _ h => step_lowers h) run
    have start := loadASync_weight load
    omega
  · intro stuck
    have sane := reaches_sane load (reaches_of_exec run)
    have idle : s.pool = [] := by
      apply List.eq_nil_iff_forall_not_mem.mpr
      rintro ⟨x, outcome⟩ hx
      cases outcome with
      | some e =>
        obtain ⟨k, rest, hk⟩ := takeAt_of_mem hx
        have stays := stuck (.run k [])
        simp [Machine.step, hk, machine] at stays
      | none =>
        obtain ⟨k, hk⟩ := List.mem_iff_getElem?.mp hx
        have stays := stuck (.finish k .success)
        cases x with
        | completion err => exact sane.posted _ hx rfl rfl
        | connect self | handshake self | write self request | read self | deadline phase =>
          simp [Machine.step, hk, machine, Handler.completes] at stays
    have one := Loop.settled_of_idle sane.balanced fun x hx => by
      rw [idle] at hx
      cases hx
    exact ⟨idle, List.length_eq_one_iff.mp one⟩

/-- What becomes of a download whose server does nothing more: it hangs for good, or it is
brought to its report by its deadlines, as long as none of them expires too late. -/
theorem download_without_server {url : Str} {parse save : Bool} {resolve : Resolve} {sni : Option Str}
    {d s : Download} (load : HTTPLoader.loadASync url parse save resolve sni = .ok d)
    (reach : Reaches machine.step Free d s) :
    (Hangs s → ∀ t, Reaches machine.step Silent s t → t.state.delivered = []) ∧
    (¬ Hangs s → ∃ t, Reaches machine.step (fun u l => Silent u l ∧ ¬ TooLate u l) s t ∧
      t.state.delivered.length = 1) ∧
    (¬ Hangs s → ∀ t, Reaches machine.step (fun u l => Silent u l ∧ ¬ TooLate u l) s t →
      (∀ l u, Silent t l → machine.step t l ≠ some u) → t.state.delivered.length = 1) ∧
    (∀ l t, ¬ Hangs s → machine.step s l = some t → (Hangs t ↔ TooLate s l)) ∧ ¬ Hangs d := by
  have sane := reaches_sane load reach
  have keep (u : Download) (l : Label Ec Str Empty) (v : Download) (hu : Sane u ∧ ¬ Hangs u)
      (hl : Silent u l ∧ ¬ TooLate u l) (h : machine.step u l = some v) : Sane v ∧ ¬ Hangs v :=
    ⟨hu.1.step h, fun hangs => hl.2 ((hangs_iff hu.1.balanced hu.2 h).mp hangs)⟩
  refine ⟨?_, ?_, ?_, fun l t runs h => hangs_iff sane.balanced runs h, (loadASync_sane load).2⟩
  · intro hangs t silent
    have both : Sane t ∧ Hangs t := by
      refine silent.invariant (P := fun t => Sane t ∧ Hangs t) ?_ ⟨sane, hangs⟩
      rintro u l v ⟨hu, hangs⟩ hl h
      exact ⟨hu.step h, hangs.step hu.balanced hl h⟩
    obtain ⟨ht, ⟨x, hx, waits⟩, _⟩ := both
    obtain ⟨k, rest, hk⟩ := takeAt_of_mem hx
    exact List.length_eq_zero_iff.mp (Loop.alone ht.balanced hk waits.owes).2
  · intro runs
    refine Reaches.ends (I := fun u => Sane u ∧ ¬ Hangs u) (Loop.weight weight) keep ?_ ⟨sane, runs⟩
    rintro u ⟨hu, runs⟩ untold
    obtain ⟨l, v, hl, h⟩ := hu.goes_on runs untold
    exact ⟨l, v, hl, h, step_lowers h⟩
  · intro runs t silent stuck
    obtain ⟨ht, runs⟩ := silent.invariant (P := fun u => Sane u ∧ ¬ Hangs u) keep ⟨sane, runs⟩
    by_contra untold
    obtain ⟨l, v, hl, h⟩ := ht.goes_on runs untold
    exact stuck l v hl.1 h

/-- The GET deadline has expired after the request was written, and the read waits for an answer. -/
def hanging : Download where
  state := { expired := [.get] }
  pool := [⟨.deadline .connect, some .operationAborted⟩, ⟨.deadline .handshake, some .operationAborted⟩,
    ⟨.read ⟨['h'], ['/', 'p'], ['8'], true, false⟩, none⟩]

def toHanging : List (Label Ec Str Empty) :=
  [.finish 1 .success, .run 1 [], .finish 2 .success, .run 2 [], .finish 3 .success, .finish 2 .success,
    .run 2 [], .run 2 []]

theorem exec_hanging : exec machine.step sample toHanging = some hanging := by decide

def toRefused : List (Label Ec Str Empty) :=
  [.finish 1 .success, .run 1 [], .finish 2 .other, .run 2 [], .run 0 [], .run 0 []]

theorem download_ends_refused : ∃ s, exec machine.step sample toRefused = some s ∧ toRefused.length ≤ 14 ∧
    s.pool = [] ∧ ∃ c, s.state.delivered = [c] := by
  have load : HTTPLoader.loadASync "h:8/p".toList true false .resolved none = .ok sample := rfl
  have run : exec machine.step sample toRefused = some ⟨refused.state, []⟩ := by decide
  obtain ⟨short, ends⟩ := download_ends load run
  refine ⟨_, run, short, ends fun l => ?_⟩
  cases l with
  | finish k e => rfl
  | run k o => rfl
  | call a => exact a.elim

theorem hangs_hanging : Hangs hanging := by
  refine ⟨⟨_, List.mem_cons_of_mem _ (List.mem_cons_of_mem _ List.mem_cons_self), .inl rfl⟩, ?_⟩
  intro y hy phase live
  have queued : ∀ y ∈ hanging.pool, y.outcome = some .operationAborted ∨ y.handler.onSocket = true := by decide
  rcases queued y hy with aborted | step
  · rcases live.2 with running | expired
    · rw [aborted] at running
      cases running
    · rw [aborted] at expired
      cases expired
  · rw [live.1] at step
    cases step

theorem download_without_server_hanging : Hangs hanging ∧
    (Hangs hanging → ∀ t, Reaches machine.step Silent hanging t → t.state.delivered = []) ∧
    (∀ l t, ¬ Hangs sample → machine.step sample l = some t → (Hangs t ↔ TooLate sample l)) := by
  have load : HTTPLoader.loadASync "h:8/p".toList true false .resolved none = .ok sample := rfl
  exact ⟨hangs_hanging, (download_without_server load (reaches_of_exec exec_hanging)).1,
    (download_without_server load .start).2.2.2.1⟩

end HTTPDevice

end AsyncIOManager
