import AsyncIOManager.HTTPDownload

namespace AsyncIOManager

open Reactor Text

namespace HTTPDevice

/-- A deadline only aborts operations of its own phase, and an operation that a
deadline has aborted is reported as a timeout. -/
def DeadlineIsolation (s : Download) : Prop :=
  (∀ b ∈ s.state.aborted, b.2.phase = some b.1) ∧
  ∀ k o h rest t, takeAt s.pool k = some (⟨h, some .operationAborted⟩, rest) →
    h.onSocket = true → machine.step s (.run k o) = some t →
    t.state.delivered = s.state.delivered ++ [.failure (.httpDevice .timeout)]

/-- No connect or handshake goes on to the next phase while the expiry handler
of its own deadline is queued. -/
def InTime (s : Download) (l : Label Ec Str Empty) : Prop :=
  ∀ k o h rest phase, l = .run k o → takeAt s.pool k = some (⟨h, some .success⟩, rest) →
    h.phase = some phase → phase ≠ .get → ⟨.deadline phase, some .success⟩ ∉ rest

/-- A deadline that is running or whose expiry handler is queued. -/
def Live (x : Entry Handler Ec) (phase : Phase) : Prop :=
  x.handler = .deadline phase ∧ (x.outcome = none ∨ x.outcome = some .success)

structure Timely (s : Download) : Prop where
  balanced : s.balance owes settled = 1
  live : ∀ x ∈ s.pool, ∀ phase, Live x phase →
    ∀ y ∈ s.pool, ∀ q, y.handler.phase = some q → q = phase
  expired : ∀ x ∈ s.pool, x.outcome = some .operationAborted →
    ∀ q, x.handler.phase = some q → q ∈ s.state.expired
  aborted : ∀ b ∈ s.state.aborted, b.2.phase = some b.1

theorem phase_owes {x : Entry Handler Ec} {q : Phase} (h : x.handler.phase = some q) :
    owes x = true := by
  simp [owes, Handler.onSocket, h]

/-- While a step of the download runs, the rest of the pool holds no other. -/
theorem Timely.alone {s : Download} (hs : Timely s) {k : Nat} {x : Entry Handler Ec}
    {rest : List (Entry Handler Ec)} (hk : takeAt s.pool k = some (x, rest))
    {q : Phase} (hx : x.handler.phase = some q) :
    ∀ y ∈ rest, y.handler.phase = none := by
  intro y hy
  by_contra some
  obtain ⟨r, hr⟩ := Option.ne_none_iff_exists'.mp some
  have count := takeAt_countP owes hk
  have pos : 0 < rest.countP owes := List.countP_pos_iff.mpr ⟨y, hy, phase_owes hr⟩
  have balanced := hs.balanced
  simp only [Loop.balance] at balanced
  rw [phase_owes hx, if_pos rfl] at count
  omega

theorem mem_cancelDeadline_live {phase r : Phase} {s : Download} {x : Entry Handler Ec}
    (hx : x ∈ (cancelDeadline phase s).pool) (live : Live x r) :
    x ∈ s.pool ∧ (r = phase → x.outcome = some .success) := by
  obtain ⟨y, hy, rfl⟩ := List.mem_map.mp hx
  obtain ⟨hd, out⟩ := live
  rw [Entry.abort_handler] at hd
  unfold Entry.abort at out ⊢
  split at out
  next hc => simp at out
  next hc =>
    refine ⟨by rwa [if_neg hc], ?_⟩
    rintro rfl
    rw [if_neg hc]
    simp only [hd, decide_true, true_and, Bool.not_eq_true, Option.isNone_eq_false_iff] at hc
    rcases out with none | done
    · simp [none] at hc
    · exact done

theorem Timely.of_delivered {s : Download} {q : Phase} {c : ReadCall} {phase : Phase}
    (hs : Timely s) {k : Nat} {x : Entry Handler Ec} {rest : List (Entry Handler Ec)}
    (hk : takeAt s.pool k = some (x, rest)) (hx : x.handler.phase = some q) :
    Timely (handleRead c (cancelDeadline phase { s with pool := rest })) := by
  have alone := hs.alone hk hx
  have nothing : ∀ y ∈ (cancelDeadline phase { s with pool := rest }).pool, y.handler.phase = none := by
    intro y hy
    obtain ⟨z, hz, same⟩ := mem_cancelDeadline hy
    rw [← same]
    exact alone z hz
  refine ⟨?_, ?_, ?_, hs.aborted⟩
  · have count := takeAt_countP owes hk
    have balanced := hs.balanced
    rw [phase_owes hx, if_pos rfl] at count
    rw [balance_handleRead, balance_cancelDeadline]
    simp only [Loop.balance] at balanced ⊢
    omega
  · intro y _ r _ z hz p hp
    rw [nothing z hz] at hp
    cases hp
  · intro y hy _ p hp
    rw [nothing y hy] at hp
    cases hp

/-- The next phase starts with a deadline and an operation of its own. -/
theorem Timely.of_next {s : Download} {q r : Phase} {h : Handler} (hs : Timely s) {k : Nat}
    {x : Entry Handler Ec} {rest : List (Entry Handler Ec)}
    (hk : takeAt s.pool k = some (x, rest)) (hx : x.handler.phase = some q)
    (inTime : ⟨.deadline q, some .success⟩ ∉ rest) (hr : h.phase = some r) :
    Timely ((armDeadline r (cancelDeadline q { s with pool := rest })).start h) := by
  have alone := hs.alone hk hx
  have nothing : ∀ y ∈ (cancelDeadline q { s with pool := rest }).pool, y.handler.phase = none := by
    intro y hy
    obtain ⟨z, hz, same⟩ := mem_cancelDeadline hy
    rw [← same]
    exact alone z hz
  refine ⟨?_, ?_, ?_, hs.aborted⟩
  · have count := takeAt_countP owes hk
    have balanced := hs.balanced
    have step : h.onSocket = true := by simp [Handler.onSocket, hr]
    rw [phase_owes hx, if_pos rfl] at count
    rw [balance_start_onSocket _ step, balance_armDeadline, balance_cancelDeadline]
    simp only [Loop.balance] at balanced ⊢
    omega
  · intro y hy p live z hz p' hp'
    have op : z = ⟨h, none⟩ := by
      rcases mem_start hz with old | new
      · rcases mem_start old with older | rfl
        · rw [nothing z older] at hp'
          cases hp'
        · cases hp'
      · exact new
    rw [op, hr] at hp'
    obtain rfl := Option.some.inj hp'
    rcases mem_start hy with old | rfl
    · rcases mem_start old with older | rfl
      · -- a deadline that outlives its phase would have been the one of `q`, queued
        obtain ⟨mem, queued⟩ := mem_cancelDeadline_live older live
        have same : q = p := hs.live y (takeAt_rest_mem hk mem) p live x (takeAt_mem hk) q hx
        subst same
        have eq : y = ⟨.deadline q, some .success⟩ := by
          cases y
          exact congrArg₂ Entry.mk live.1 (queued rfl)
        exact absurd (eq ▸ mem) inTime
      · cases live.1
        rfl
    · have eq : h = .deadline p := live.1
      rw [eq] at hr
      cases hr
  · intro y hy out p hp
    rcases mem_start hy with old | rfl
    · rcases mem_start old with older | rfl
      · rw [nothing y older] at hp
        cases hp
      · cases hp
    · cases out

theorem Timely.of_write {self : HTTPDevice} {s : Download} (hs : Timely s) {k : Nat} {e : Ec}
    {request : Option Str} {rest : List (Entry Handler Ec)}
    (hk : takeAt s.pool k = some (⟨.write self request, some e⟩, rest)) :
    Timely (({ s with pool := rest } : Download).start (.read self)) := by
  have alone := hs.alone hk rfl
  refine ⟨?_, ?_, ?_, hs.aborted⟩
  · have count := takeAt_countP owes hk
    have balanced := hs.balanced
    rw [phase_owes rfl, if_pos rfl] at count
    rw [balance_start_onSocket _ rfl]
    simp only [Loop.balance] at balanced ⊢
    omega
  · intro y hy p live z hz p' hp'
    rcases mem_start hz with old | rfl
    · rw [alone z old] at hp'
      cases hp'
    · cases hp'
      rcases mem_start hy with old | rfl
      · exact hs.live y (takeAt_rest_mem hk old) p live _ (takeAt_mem hk) .get rfl
      · cases live.1
  · intro y hy out p hp
    rcases mem_start hy with old | rfl
    · exact hs.expired y (takeAt_rest_mem hk old) out p hp
    · cases out

/-- An expiry that runs in time aborts the operation of its own phase, if any. -/
theorem Timely.of_deadline {s : Download} (hs : Timely s) {k : Nat} {e : Ec} {phase : Phase}
    {rest : List (Entry Handler Ec)}
    (hk : takeAt s.pool k = some (⟨.deadline phase, some e⟩, rest)) :
    Timely (deadlineHandler phase e { s with pool := rest }) := by
  have own : e = .success → ∀ y ∈ rest, ∀ q, y.handler.phase = some q → q = phase := by
    intro ok y hy q hq
    exact hs.live _ (takeAt_mem hk) phase ⟨rfl, .inr (by rw [ok])⟩ y (takeAt_rest_mem hk hy) q hq
  have balanced : (deadlineHandler phase e { s with pool := rest }).balance owes settled = 1 := by
    have count := takeAt_countP owes hk
    have balanced := hs.balanced
    rw [balance_deadlineHandler]
    simp only [Loop.balance, owes, Handler.onSocket, Handler.phase, Handler.isCompletion] at *
    simp at count
    omega
  unfold deadlineHandler at balanced ⊢
  split
  next ok =>
    rw [if_pos ok] at balanced
    refine ⟨balanced, ?_, ?_, ?_⟩
    · intro y hy p live z hz q hq
      obtain ⟨y', hy', rfl⟩ := List.mem_map.mp hy
      obtain ⟨z', hz', rfl⟩ := List.mem_map.mp hz
      rw [Entry.abort_handler] at hq
      have timer : y'.handler = .deadline p := (Entry.abort_handler _ _ y').symm.trans live.1
      have kept : y'.abort Handler.onSocket .operationAborted = y' := by
        unfold Entry.abort
        rw [if_neg (by simp [timer, Handler.onSocket, Handler.phase])]
      rw [kept] at live
      exact hs.live y' (takeAt_rest_mem hk hy') p live z' (takeAt_rest_mem hk hz') q hq
    · intro y hy out q hq
      obtain ⟨y', hy', rfl⟩ := List.mem_map.mp hy
      rw [Entry.abort_handler] at hq
      exact List.mem_cons.mpr (.inl (own ok y' hy' q hq))
    · intro b hb
      rcases List.mem_append.mp hb with old | hit
      · exact hs.aborted b old
      · obtain ⟨y, hy, rfl⟩ := List.mem_map.mp hit
        obtain ⟨mem, running⟩ := List.mem_filter.mp hy
        have step : y.handler.phase.isSome = true := by
          simp only [inProgress, Handler.onSocket, Bool.and_eq_true] at running
          exact running.1
        obtain ⟨q, hq⟩ := Option.isSome_iff_exists.mp step
        rw [hq, own ok y mem q hq]
  next failed =>
    rw [if_neg failed] at balanced
    exact ⟨balanced,
      fun y hy p live z hz => hs.live y (takeAt_rest_mem hk hy) p live z (takeAt_rest_mem hk hz),
      fun y hy => hs.expired y (takeAt_rest_mem hk hy), hs.aborted⟩

theorem Timely.of_run {s : Download} (hs : Timely s) {k : Nat} {h : Handler} {e : Ec}
    {headerbuff : Str} {rest : List (Entry Handler Ec)}
    (hk : takeAt s.pool k = some (⟨h, some e⟩, rest)) (inTime : InTime s (.run k headerbuff)) :
    Timely (h.run e headerbuff { s with pool := rest }) := by
  cases h with
  | connect self =>
    change Timely (connectHandler self e _)
    by_cases ok : e = .success
    · subst ok
      exact hs.of_next hk rfl (inTime k _ _ rest _ rfl hk rfl (by simp)) rfl
    · rw [connectHandler_error ok]
      exact hs.of_delivered hk rfl
  | handshake self =>
    change Timely (handshakeHandler self e _)
    by_cases ok : e = .success
    · subst ok
      exact hs.of_next hk rfl (inTime k _ _ rest _ rfl hk rfl (by simp)) rfl
    · rw [handshakeHandler_error ok]
      exact hs.of_delivered hk rfl
  | write self request =>
    change Timely (writeHandler self e _)
    by_cases ok : e = .success
    · subst ok
      exact hs.of_write hk
    · rw [writeHandler_error ok]
      exact hs.of_delivered hk rfl
  | read self =>
    change Timely (readHandler self e headerbuff _)
    by_cases interrupted : e ≠ .success ∧ e ≠ .eof
    · rw [readHandler_error interrupted]
      exact hs.of_delivered hk rfl
    · rcases readHandler_done self headerbuff { s with pool := rest } interrupted with
        ⟨_, eq⟩ | ⟨_, _, eq⟩ <;>
      · rw [eq]
        exact hs.of_delivered hk rfl
  | deadline phase => exact hs.of_deadline hk
  | completion err =>
    have count := takeAt_countP owes hk
    have balanced := hs.balanced
    have owed : owes ⟨.completion err, some e⟩ = true := rfl
    rw [owed, if_pos rfl] at count
    refine ⟨?_, ?_, ?_, hs.aborted⟩
    · change (handleRead (.failure err) _).balance owes settled = 1
      rw [balance_handleRead]
      simp only [Loop.balance] at balanced ⊢
      omega
    · exact fun y hy p live z hz =>
        hs.live y (takeAt_rest_mem hk hy) p live z (takeAt_rest_mem hk hz)
    · exact fun y hy => hs.expired y (takeAt_rest_mem hk hy)

theorem Timely.of_finish {s : Download} (hs : Timely s) {k : Nat} {h : Handler} {e : Ec}
    (hk : s.pool[k]? = some ⟨h, none⟩) (ends : h.completes e = true) :
    Timely { s with pool := s.pool.set k ⟨h, some e⟩ } := by
  have mem : ⟨h, none⟩ ∈ s.pool := List.mem_of_getElem? hk
  refine ⟨?_, ?_, ?_, hs.aborted⟩
  · have balanced := hs.balanced
    simpa only [Loop.balance, countP_set_outcome hk (owes_congr h _ _)] using balanced
  · intro y hy p live z hz q hq
    have old : ∀ w ∈ s.pool.set k ⟨h, some e⟩, ∃ w' ∈ s.pool, w'.handler = w.handler := by
      intro w hw
      rcases List.mem_or_eq_of_mem_set hw with older | rfl
      · exact ⟨w, older, rfl⟩
      · exact ⟨⟨h, none⟩, mem, rfl⟩
    obtain ⟨z', hz', same⟩ := old z hz
    rw [← same] at hq
    rcases List.mem_or_eq_of_mem_set hy with older | rfl
    · exact hs.live y older p live z' hz' q hq
    · exact hs.live _ mem p ⟨live.1, .inl rfl⟩ z' hz' q hq
  · intro y hy out q hq
    rcases List.mem_or_eq_of_mem_set hy with older | rfl
    · exact hs.expired y older out q hq
    · obtain rfl := Option.some.inj out
      cases h <;> simp [Handler.completes] at ends

theorem Timely.step {s t : Download} {l : Label Ec Str Empty} (hs : Timely s)
    (inTime : InTime s l) (h : machine.step s l = some t) : Timely t := by
  rcases Machine.step_cases h with ⟨k, e, x, _, hk, hc, rfl⟩ | ⟨k, o, x, e, rest, rfl, hk, hr⟩ | ⟨a, _, _⟩
  · exact hs.of_finish hk hc
  · cases Option.some.inj hr
    exact hs.of_run hk inTime
  · exact a.elim

theorem loadASync_timely {url : Str} {parse save : Bool} {resolve : Resolve} {sni : Option Str}
    {s : Download} (h : HTTPLoader.loadASync url parse save resolve sni = .ok s) : Timely s := by
  have balanced := loadASync_balance h
  obtain ⟨e, rfl⟩ | ⟨_, rfl⟩ := loadASync_cases h
  · refine ⟨balanced, ?_, ?_, fun b hb => by cases hb⟩
    · intro x _ p _ y hy q hq
      cases List.mem_singleton.mp hy
      cases hq
    · intro x hx out
      cases List.mem_singleton.mp hx
      cases out
  · refine ⟨balanced, ?_, ?_, fun b hb => by cases hb⟩
    · intro x hx p live y hy q hq
      rcases mem_start hx with old | rfl
      · cases List.mem_singleton.mp old
        cases live.1
        rcases mem_start hy with old | rfl
        · cases List.mem_singleton.mp old
          cases hq
        · exact (Option.some.inj hq).symm
      · cases live.1
    · intro x hx out
      rcases mem_start hx with old | rfl
      · cases List.mem_singleton.mp old
        cases out
      · cases out

theorem failed_of_expired {phase : Phase} {otherwise : Error} {s : Download}
    (h : phase ∈ s.state.expired) : failed phase otherwise s = .failure (.httpDevice .timeout) := by
  simp [failed, h]

theorem Timely.isolated {s : Download} (hs : Timely s) : DeadlineIsolation s := by
  refine ⟨hs.aborted, ?_⟩
  intro k o h rest t hk step hstep
  simp only [Machine.step, hk] at hstep
  cases Option.some.inj hstep
  have expired := hs.expired _ (takeAt_mem hk) rfl
  have bad : Ec.operationAborted ≠ .success ∧ Ec.operationAborted ≠ .eof := by decide
  cases h with
  | connect self =>
    change (connectHandler self _ _).state.delivered = _
    rw [connectHandler_error bad.1,
      failed_of_expired (s := cancelDeadline .connect { s with pool := rest }) (expired .connect rfl)]
    rfl
  | handshake self =>
    change (handshakeHandler self _ _).state.delivered = _
    rw [handshakeHandler_error bad.1,
      failed_of_expired (s := cancelDeadline .handshake { s with pool := rest }) (expired .handshake rfl)]
    rfl
  | write self request =>
    change (writeHandler self _ _).state.delivered = _
    rw [writeHandler_error bad.1,
      failed_of_expired (s := cancelDeadline .get { s with pool := rest }) (expired .get rfl)]
    rfl
  | read self =>
    change (readHandler self _ o _).state.delivered = _
    rw [readHandler_error bad,
      failed_of_expired (s := cancelDeadline .get { s with pool := rest }) (expired .get rfl)]
    rfl
  | deadline phase => cases step
  | completion err => cases step

/-- Deadlines stay in their phase along every run in which no phase is left
while its own expiry handler is queued. -/
theorem deadlines_isolated_in_time {url : Str} {parse save : Bool} {resolve : Resolve} {d s : Download}
    (load : HTTPLoader.loadASync url parse save resolve none = .ok d)
    (reach : Reaches machine.step InTime d s) : DeadlineIsolation s := by
  have timely : Timely s :=
    reach.invariant (fun _ _ _ ht inTime hstep => ht.step inTime hstep) (loadASync_timely load)
  exact timely.isolated

/-- The download of `sample` after its connect deadline has expired in time. -/
def timedOut : Download :=
  ⟨{ expired := [.connect]
     aborted := [(.connect, .connect ⟨['h'], ['/', 'p'], ['8'], true, false⟩)]
     delivered := [.failure (.httpDevice .timeout)] }, []⟩

theorem deadlines_isolated_in_time_timedOut :
    Reaches machine.step InTime sample timedOut ∧ DeadlineIsolation timedOut := by
  have load : HTTPLoader.loadASync "h:8/p".toList true false .resolved none = .ok sample := rfl
  have expires : machine.step sample (.finish 0 .success) =
      some { sample with pool := sample.pool.set 0 ⟨.deadline .connect, some .success⟩ } := rfl
  have reach : Reaches machine.step InTime sample timedOut := by
    refine .next (.next (.next .start ?_ expires) (l := .run 0 []) ?_ rfl) (l := .run 0 []) ?_ (by decide)
    · rintro k o h rest phase ⟨⟩
    · rintro k o h rest phase ⟨⟩ ⟨⟩ ⟨⟩
    · rintro k o h rest phase ⟨⟩ ⟨⟩
  exact ⟨reach, deadlines_isolated_in_time load reach⟩

/-- The download of `sample` when the expiry handler of the connect deadline is
already queued as the connection succeeds: it runs during the handshake. -/
def late : Download :=
  ⟨{ expired := [.connect]
     aborted := [(.connect, .handshake ⟨['h'], ['/', 'p'], ['8'], true, false⟩)]
     delivered := [.failure (.httpDevice .handshakeError)] },
    [⟨.deadline .handshake, some .operationAborted⟩]⟩

theorem late_expiry_breaks_isolation :
    Reaches machine.step Free sample late ∧
    ¬ ∀ s, Reaches machine.step Free sample s → DeadlineIsolation s := by
  have reach : Reaches machine.step Free sample late :=
    reaches_of_exec (show exec machine.step sample
      [.finish 0 .success, .finish 1 .success, .run 1 [], .run 0 [], .run 1 []] = some late by decide)
  refine ⟨reach, fun isolated => ?_⟩
  have own := (isolated late reach).1 (.connect, .handshake ⟨['h'], ['/', 'p'], ['8'], true, false⟩)
    (List.mem_singleton.mpr rfl)
  cases own

theorem mem_cancelDeadline_queued {phase : Phase} {s : Download} {h : Handler} {e : Ec}
    (hx : ⟨h, some e⟩ ∈ s.pool) : ⟨h, some e⟩ ∈ (cancelDeadline phase s).pool :=
  List.mem_map.mpr ⟨⟨h, some e⟩, hx, by simp [Entry.abort]⟩

/-- An expiry handler that is queued while an operation of another phase runs
aborts that operation if it runs next. -/
theorem stale_expiry_breaks_isolation {s : Download} {p q : Phase} {h : Handler}
    (queued : ⟨.deadline p, some .success⟩ ∈ s.pool) (running : ⟨h, none⟩ ∈ s.pool)
    (hq : h.phase = some q) (other : q ≠ p) :
    ∃ u, Reaches machine.step Free s u ∧ ¬ DeadlineIsolation u := by
  obtain ⟨k, rest, hk⟩ := takeAt_of_mem queued
  have kept : ⟨h, none⟩ ∈ rest := takeAt_keeps hk running (by simp)
  refine ⟨deadlineHandler p .success { s with pool := rest }, ?_, fun isolated => ?_⟩
  · exact Reaches.one (l := .run k []) trivial (by simp only [Machine.step, hk]; rfl)
  · have onSocket : inProgress ⟨h, none⟩ = true := by simp [inProgress, Handler.onSocket, hq]
    have hit : (p, h) ∈ (deadlineHandler p .success { s with pool := rest }).state.aborted :=
      List.mem_append_right _ (List.mem_map.mpr ⟨⟨h, none⟩, List.mem_filter.mpr ⟨kept, onSocket⟩, rfl⟩)
    have own : h.phase = some p := isolated.1 (p, h) hit
    rw [hq] at own
    exact other (Option.some.inj own)

/-- The condition cannot be dropped: after a step that does not meet it, the
queued expiry handler can break the isolation. -/
theorem not_inTime_breaks_isolation {s t : Download} {l : Label Ec Str Empty}
    (late : ¬ InTime s l) (h : machine.step s l = some t) :
    ∃ u, Reaches machine.step Free t u ∧ ¬ DeadlineIsolation u := by
  simp only [InTime, not_forall, not_not] at late
  obtain ⟨k, o, x, rest, phase, rfl, hk, hx, notGet, queued⟩ := late
  simp only [Machine.step, hk] at h
  cases Option.some.inj h
  cases x with
  | connect self =>
    obtain rfl := Option.some.inj hx
    refine stale_expiry_breaks_isolation (p := .connect)
      (h := .handshake self) (q := .handshake) ?_ ?_ rfl (by decide)
    · exact List.mem_append_left _ (List.mem_append_left _ (mem_cancelDeadline_queued queued))
    · exact List.mem_append_right _ (List.mem_singleton.mpr rfl)
  | handshake self =>
    obtain rfl := Option.some.inj hx
    refine stale_expiry_breaks_isolation (p := .handshake)
      (h := .write self (sent self.getRequest)) (q := .get) ?_ ?_ rfl (by decide)
    · exact List.mem_append_left _ (List.mem_append_left _ (mem_cancelDeadline_queued queued))
    · exact List.mem_append_right _ (List.mem_singleton.mpr rfl)
  | write self request => exact absurd (Option.some.inj hx).symm notGet
  | read self => exact absurd (Option.some.inj hx).symm notGet
  | deadline p => cases hx
  | completion err => cases hx

end HTTPDevice

end AsyncIOManager
